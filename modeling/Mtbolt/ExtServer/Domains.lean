import Mtbolt.Lib.CString

/-!
# Camouflage domains

The domains that a Fake-TLS proxy pretends to be are registered from the command line (`-D`) and
from the configuration file by `tcp_rpc_add_proxy_domain` (`net-tcp-rpc-ext-domain.c`), in a hash
table for names and in a list for wildcard patterns; `get_domain_info` (`net-tcp-rpc-ext-server.c`)
looks up the name that a client sends.
-/

namespace Mtbolt.ExtServer

open CString List

/-! ### Patterns -/

/-- `wildcard_match`. -/
def wildcardMatch (pattern sni : List UInt8) : Bool :=
  let suffix := pattern.drop 1
  if sni.length ≤ suffix.length then false
  else
    let labelLen := sni.length - suffix.length
    if (sni.take labelLen).contains 0x2e then false
    else if (sni.take labelLen).contains 0x2a then false
    else sni.drop labelLen = suffix

/-- The loop of `is_wildcard_domain` from a place with `saw_dot` and `label_len` on. -/
def wildcardLabels : List UInt8 → Bool → ℕ → Bool
  | [], sawDot, labelLen => sawDot && 0 < labelLen
  | b :: p, sawDot, labelLen =>
    if b = 0x2a then false
    else if b = 0x2e then if labelLen = 0 then false else wildcardLabels p true 0
    else wildcardLabels p sawDot (labelLen + 1)

/-- `is_wildcard_domain`. -/
def isWildcardDomain (pattern : List UInt8) : Bool :=
  match pattern with
  | 0x2a :: 0x2e :: p => !p.isEmpty && wildcardLabels p false 0
  | _ => false

/-! ### Registration -/

/-- `parse_host_port`: the host and the port; `none` when a bracket is not closed. -/
def parseHostPort (spec : List UInt8) : Option (List UInt8 × ℤ) :=
  if spec.head? = some 0x5b then
    match strchr spec 0x5d with
    | none => none
    | some e =>
      some ((spec.take e).drop 1,
        if spec[e + 1]? = some 0x3a then atoi (spec.drop (e + 2)) else 443)
  else
    match strrchr spec 0x3a with
    | none => some (spec, 443)
    | some c =>
      if strchr spec 0x3a = some c then some (spec.take c, atoi (spec.drop (c + 1)))
      else some (spec, 443)

/-- `struct domain_info`, the part that says where the backend is. -/
structure DomainEntry where
  domain : List UInt8
  backendHost : Option (List UInt8)
  unixPath : Option (List UInt8)
  port : ℤ
  deriving DecidableEq, Repr

/-- Why a specification is refused. -/
inductive DomainError
  | invalidIpv6
  | invalidBackend
  | invalidPort
  | invalidWildcard
  | wildcardNeedsBackend
  deriving DecidableEq, Repr

/-- `"unix:"`. -/
def unixText : List UInt8 := [0x75, 0x6e, 0x69, 0x78, 0x3a]

/-- The first part of `tcp_rpc_add_proxy_domain`: the name and the backend.  An empty backend counts
as none. -/
def parseDomain (name : List UInt8) (backend : Option (List UInt8)) :
    Except DomainError DomainEntry :=
  match backend.filter (· ≠ []) with
  | none =>
    match parseHostPort name with
    | none => .error .invalidIpv6
    | some (parsed, port) => .ok ⟨parsed, none, none, port⟩
  | some bspec =>
    if bspec.take 5 = unixText ∨ bspec.head? = some 0x2f then
      .ok ⟨name, none, some (if bspec.head? = some 0x2f then bspec else bspec.drop 5), 443⟩
    else
      match parseHostPort bspec with
      | none => .error .invalidBackend
      | some (host, port) => .ok ⟨name, some host, none, port⟩

/-- The second part of `tcp_rpc_add_proxy_domain`: the checks. -/
def checkDomain (info : DomainEntry) : Except DomainError DomainEntry :=
  if info.port ≤ 0 ∨ 65535 < info.port then .error .invalidPort
  else if info.domain.head? = some 0x2a then
    if !isWildcardDomain info.domain then .error .invalidWildcard
    else if info.backendHost.isNone ∧ info.unixPath.isNone then .error .wildcardNeedsBackend
    else .ok info
  else .ok info

variable {info : DomainEntry} {sni : List UInt8}

theorem port_of_checkDomain {info' : DomainEntry} (h : checkDomain info = .ok info') :
    info' = info ∧ 0 < info.port ∧ info.port ≤ 65535 := by
  unfold checkDomain at h
  split_ifs at h with hport hstar hwild hback
  all_goals
    cases h
    push Not at hport
    exact ⟨rfl, hport⟩

/-- `domains`, `wildcard_domains`, and `default_domain_info`, which is set together with
`allow_only_tls`. -/
structure DomainTable where
  domains : ℕ → List DomainEntry
  wildcardDomains : List DomainEntry
  defaultDomainInfo : Option DomainEntry

def DomainTable.empty : DomainTable := ⟨fun _ => [], [], none⟩

/-- `get_domain_info_bucket`: the index of the bucket; the hash is a 32-bit number. -/
def getDomainInfoBucket (domain : List UInt8) : ℕ :=
  (domain.foldl (fun hash b => hash * 239017#32 + b.toBitVec.setWidth 32) 0#32).toNat % 257

/-- The last part of `tcp_rpc_add_proxy_domain`. -/
def insertDomain (t : DomainTable) (info : DomainEntry) : DomainTable :=
  let t := { t with defaultDomainInfo := some (t.defaultDomainInfo.getD info) }
  if info.domain.head? = some 0x2a then { t with wildcardDomains := info :: t.wildcardDomains }
  else
    let bucket := getDomainInfoBucket info.domain
    { t with domains := Function.update t.domains bucket (info :: t.domains bucket) }

/-- `tcp_rpc_add_proxy_domain`. -/
def tcpRpcAddProxyDomain (t : DomainTable) (name : List UInt8) (backend : Option (List UInt8)) :
    DomainTable :=
  match (parseDomain name backend).bind checkDomain with
  | .error _ => t
  | .ok info => insertDomain t info

/-- `get_domain_info`. -/
def getDomainInfo (t : DomainTable) (sni : List UInt8) : Option DomainEntry :=
  match (t.domains (getDomainInfoBucket sni)).find? (fun info => info.domain = sni) with
  | some info => some info
  | none => t.wildcardDomains.find? fun info => wildcardMatch info.domain sni

/-- Where the connections for an entry go: `backend_host` or the name itself, or a socket. -/
inductive Backend
  | tcp (host : List UInt8) (port : ℤ)
  | unix (path : List UInt8)
  deriving DecidableEq, Repr

def DomainEntry.backend (info : DomainEntry) : Backend :=
  match info.unixPath with
  | some path => .unix path
  | none => .tcp (info.backendHost.getD info.domain) info.port

/-! ### The tables -/

/-- The table after a list of entries, the last one first. -/
def tableOf : List DomainEntry → DomainTable
  | [] => .empty
  | info :: infos => insertDomain (tableOf infos) info

def DomainEntry.isWildcard (info : DomainEntry) : Bool := info.domain.head? = some 0x2a

theorem domains_tableOf (infos : List DomainEntry) (i : ℕ) :
    (tableOf infos).domains i =
      infos.filter fun info => !info.isWildcard && getDomainInfoBucket info.domain = i := by
  induction infos with
  | nil => rfl
  | cons info infos ih =>
    rw [tableOf, insertDomain]
    by_cases hwild : info.domain.head? = some 0x2a
    · simp [hwild, DomainEntry.isWildcard, ih]
    · by_cases hi : getDomainInfoBucket info.domain = i
      · subst hi
        simp [hwild, DomainEntry.isWildcard, ih]
      · simp [hwild, DomainEntry.isWildcard, ih, hi, Function.update_of_ne (Ne.symm hi)]

theorem wildcardDomains_tableOf (infos : List DomainEntry) :
    (tableOf infos).wildcardDomains = infos.filter fun info => info.isWildcard := by
  induction infos with
  | nil => rfl
  | cons info infos ih =>
    rw [tableOf, insertDomain]
    by_cases hwild : info.domain.head? = some 0x2a
    · simp [hwild, DomainEntry.isWildcard, ih]
    · simp [hwild, DomainEntry.isWildcard, ih]

/-- An entry for the name. -/
def DomainEntry.isFor (sni : List UInt8) (info : DomainEntry) : Bool :=
  !info.isWildcard && info.domain = sni

/-- A pattern that matches the name. -/
def DomainEntry.covers (sni : List UInt8) (info : DomainEntry) : Bool :=
  info.isWildcard && wildcardMatch info.domain sni

/-- **The lookup** finds the last entry for the name, or else the last pattern that matches. -/
theorem getDomainInfo_eq (infos : List DomainEntry) (sni : List UInt8) :
    getDomainInfo (tableOf infos) sni =
      (infos.find? (·.isFor sni)).or (infos.find? (·.covers sni)) := by
  have hbucket : (fun info : DomainEntry => decide ((!info.isWildcard &&
      decide (getDomainInfoBucket info.domain = getDomainInfoBucket sni)) = true ∧
        decide (info.domain = sni) = true)) = fun info => info.isFor sni := by
    funext info
    by_cases h : info.domain = sni <;> simp [h, DomainEntry.isFor]
  have hpattern : (fun info : DomainEntry => decide (info.isWildcard = true ∧
      wildcardMatch info.domain sni = true)) = fun info => info.covers sni := by
    funext info
    rw [Bool.decide_and, Bool.decide_eq_true, Bool.decide_eq_true]
    rfl
  unfold getDomainInfo
  rw [domains_tableOf, wildcardDomains_tableOf, find?_filter, find?_filter, hbucket, hpattern]
  cases infos.find? (·.isFor sni) <;> rfl

/-! ### Specifications -/

/-- A host name, or a wildcard pattern: a text without colons that does not start with a bracket. -/
structure HostName where
  text : List UInt8
  nocolon : 0x3a ∉ text
  nobracket : text.head? ≠ some 0x5b
  deriving DecidableEq

/-- A port: a decimal number from 1 to 65535. -/
structure PortText where
  text : List UInt8
  number : IsNumber text
  pos : 0 < value text
  le : value text ≤ 65535

/-- A host to connect to: a name, or an address in brackets. -/
inductive BackendHost
  | name (h : HostName) (hne : h.text ≠ []) (hnopath : h.text.head? ≠ some 0x2f)
  | bracketed (addr : List UInt8) (h : 0x5d ∉ addr)

def BackendHost.text : BackendHost → List UInt8
  | .name h _ _ => h.text
  | .bracketed addr _ => 0x5b :: addr ++ [0x5d]

def BackendHost.host : BackendHost → List UInt8
  | .name h _ _ => h.text
  | .bracketed addr _ => addr

/-- A backend of the configuration file: a host with or without a port, an address with several
colons, or the path of a socket. -/
inductive BackendSpec
  | host (h : BackendHost)
  | hostPort (h : BackendHost) (p : PortText) (hnounix : h.text ++ [0x3a] ≠ unixText)
  | address (addr a b c : List UInt8) (hsplit : addr = a ++ 0x3a :: b ++ 0x3a :: c)
      (hnobracket : addr.head? ≠ some 0x5b) (hnopath : addr.head? ≠ some 0x2f)
      (hnounix : addr.take 5 ≠ unixText)
  | unix (path : List UInt8)
  | absolute (path : List UInt8)

def BackendSpec.text : BackendSpec → List UInt8
  | .host h => h.text
  | .hostPort h p _ => h.text ++ 0x3a :: p.text
  | .address addr .. => addr
  | .unix path => unixText ++ path
  | .absolute path => 0x2f :: path

/-- Where a backend is. -/
def BackendSpec.backend : BackendSpec → Backend
  | .host h => .tcp h.host 443
  | .hostPort h p _ => .tcp h.host (value p.text)
  | .address addr .. => .tcp addr 443
  | .unix path => .unix path
  | .absolute path => .unix (0x2f :: path)

/-- **The documented forms**: `-D sni`, `-D sni:port`, `-D sni:backend:port`, and a name with a
backend in the configuration file. -/
inductive DomainSpec
  | sni (name : HostName)
  | sniPort (name : HostName) (port : PortText)
  | sniBackendPort (name : HostName) (host : BackendHost) (port : PortText)
  | config (name : HostName) (backend : BackendSpec)

def DomainSpec.name : DomainSpec → HostName
  | .sni name | .sniPort name _ | .sniBackendPort name _ _ | .config name _ => name

/-- The arguments of `tcp_rpc_add_proxy_domain`. -/
def DomainSpec.args : DomainSpec → List UInt8 × Option (List UInt8)
  | .sni name => (name.text, none)
  | .sniPort name port => (name.text ++ 0x3a :: port.text, none)
  | .sniBackendPort name host port =>
    (name.text ++ 0x3a :: (host.text ++ 0x3a :: port.text), none)
  | .config name backend => (name.text, some backend.text)

/-- The backend that is written in a specification; a name alone is its own. -/
def DomainSpec.backend : DomainSpec → Backend
  | .sni name => .tcp name.text 443
  | .sniPort name port => .tcp name.text (value port.text)
  | .sniBackendPort _ host port => .tcp host.host (value port.text)
  | .config _ backend => backend.backend

/-- `-D sni:backend:port`. -/
def DomainSpec.IsUnsplit : DomainSpec → Prop
  | .sniBackendPort .. => True
  | _ => False

instance (s : DomainSpec) : Decidable s.IsUnsplit :=
  match s with
  | .sniBackendPort .. => isTrue trivial
  | .sni _ => isFalse id
  | .sniPort .. => isFalse id
  | .config .. => isFalse id

/-- The specification is for a pattern. -/
def DomainSpec.IsWildcard (s : DomainSpec) : Prop := s.name.text.head? = some 0x2a

/-- The specification names its backend. -/
def DomainSpec.HasBackend : DomainSpec → Prop
  | .sniBackendPort .. => True
  | .config .. => True
  | _ => False

/-- The specification is for exactly this name. -/
def DomainSpec.IsExactly (s : DomainSpec) (sni : List UInt8) : Prop :=
  ¬ s.IsWildcard ∧ s.name.text = sni

/-- The specification is for a valid pattern `*.suffix`, has a backend, and the name is one label
followed by `.suffix`. -/
structure DomainSpec.Covers (s : DomainSpec) (sni label : List UInt8) : Prop where
  wildcard : s.IsWildcard
  valid : isWildcardDomain s.name.text = true
  backend : s.HasBackend
  nonempty : label ≠ []
  one : 0x2e ∉ label
  split : sni = label ++ s.name.text.drop 1

/-- The table after registering specifications in order. -/
def registerAll (specs : List DomainSpec) : DomainTable :=
  specs.foldl (fun t s => tcpRpcAddProxyDomain t s.args.1 s.args.2) .empty

/-! ### What becomes of a specification -/

/-- The entry of a specification, if it is accepted. -/
def DomainSpec.entry (s : DomainSpec) : Option DomainEntry :=
  ((parseDomain s.args.1 s.args.2).bind checkDomain).toOption

theorem tcpRpcAddProxyDomain_eq (t : DomainTable) (s : DomainSpec) :
    tcpRpcAddProxyDomain t s.args.1 s.args.2 = s.entry.elim t (insertDomain t) := by
  unfold tcpRpcAddProxyDomain DomainSpec.entry
  cases (parseDomain s.args.1 s.args.2).bind checkDomain <;> rfl

theorem registerAll_eq (specs : List DomainSpec) :
    registerAll specs = tableOf (specs.reverse.filterMap DomainSpec.entry) := by
  induction specs using reverseRecOn with
  | nil => rfl
  | append_singleton specs s ih =>
    rw [registerAll, foldl_append, foldl_cons, ← registerAll, ih,
      tcpRpcAddProxyDomain_eq, reverse_append, reverse_singleton, singleton_append,
      filterMap_cons]
    cases s.entry <;> rfl

variable (p : PortText) (name : List UInt8)

theorem atoi_port : atoi p.text = value p.text := by
  have hread : strtol (p.text ++ []) = _ := strtol_digits p.number.1 p.number.2 (stopsAt_nil _)
  rw [append_nil] at hread
  have hle := p.le
  rw [atoi, hread]
  simp only [clamp, toInt, Int.bmod]
  omega

theorem colon_notMem_port : 0x3a ∉ p.text :=
  fun h => absurd (p.number.2 _ h) (by decide)

theorem parseHostPort_name (h : HostName) : parseHostPort h.text = some (h.text, 443) := by
  rw [parseHostPort, if_neg h.nobracket, strrchr_eq_none h.nocolon]

theorem parseHostPort_namePort (h : HostName) (p : PortText) :
    parseHostPort (h.text ++ 0x3a :: p.text) = some (h.text, (value p.text : ℤ)) := by
  have hhead : (h.text ++ 0x3a :: p.text).head? ≠ some 0x5b := by
    cases htext : h.text with
    | nil => simp
    | cons b t =>
      have := h.nobracket
      rw [htext] at this
      simpa using this
  rw [parseHostPort, if_neg hhead, strrchr_append _ (colon_notMem_port p)]
  dsimp only
  have hport : (h.text ++ 0x3a :: p.text).drop (h.text.length + 1) = p.text := by
    rw [← drop_drop, drop_left, drop_one, tail_cons]
  rw [if_pos (strchr_append h.nocolon _), take_left, hport, atoi_port]

theorem parseHostPort_colons {s a b c : List UInt8} (hs : s = a ++ 0x3a :: b ++ 0x3a :: c)
    (hhead : s.head? ≠ some 0x5b) : parseHostPort s = some (s, 443) := by
  have hcount : 2 ≤ s.count 0x3a := by
    rw [hs]
    simp only [count_append, count_cons_self]
    omega
  have hmem : 0x3a ∈ s := count_pos_iff.1 (by omega)
  obtain ⟨x, y, hfirst, hx⟩ := eq_append_cons_of_mem hmem
  obtain ⟨v, u, hlast, hv⟩ := eq_append_cons_of_mem (mem_reverse.2 hmem)
  have hlast : s = u.reverse ++ 0x3a :: v.reverse := by
    rw [← reverse_reverse s, hlast]
    simp
  have hv : 0x3a ∉ v.reverse := by simpa using hv
  rw [parseHostPort, if_neg hhead]
  nth_rewrite 1 [hlast]
  rw [strrchr_append _ hv]
  dsimp only
  rw [if_neg]
  rw [hfirst, strchr_append hx, Option.some.injEq]
  intro hlen
  -- The first colon is the last one, so it is the only one.
  obtain ⟨rfl, htail⟩ := append_inj (hfirst.symm.trans hlast) hlen
  obtain rfl : y = v.reverse := (cons.inj htail).2
  rw [hfirst, count_append, count_cons_self, count_eq_zero.2 hx, count_eq_zero.2 hv] at hcount
  omega

theorem parseHostPort_bracketed {addr : List UInt8} (h : 0x5d ∉ addr) (rest : List UInt8) :
    parseHostPort (0x5b :: addr ++ 0x5d :: rest) =
      some (addr, if rest.head? = some 0x3a then atoi (rest.drop 1) else 443) := by
  have hfirst : 0x5d ∉ 0x5b :: addr := by simp [h]
  have hrest : (0x5b :: addr ++ 0x5d :: rest).drop ((0x5b :: addr).length + 1) = rest := by
    rw [← drop_drop, drop_left, drop_one, tail_cons]
  have hnext : (0x5b :: addr ++ 0x5d :: rest)[(0x5b :: addr).length + 1]? = rest.head? := by
    rw [← head?_drop, hrest]
  rw [parseHostPort, if_pos (by rfl), strchr_append hfirst]
  dsimp only
  rw [take_left, drop_one, tail_cons, hnext, ← hrest, drop_drop, hrest]

theorem parseHostPort_host (h : BackendHost) : parseHostPort h.text = some (h.host, 443) := by
  cases h with
  | name h hne hnopath => exact parseHostPort_name h
  | bracketed addr h => exact parseHostPort_bracketed h []

theorem parseHostPort_hostPort (h : BackendHost) (p : PortText) :
    parseHostPort (h.text ++ 0x3a :: p.text) = some (h.host, (value p.text : ℤ)) := by
  cases h with
  | name h hne hnopath => exact parseHostPort_namePort h p
  | bracketed addr h =>
    have hparse := parseHostPort_bracketed h (0x3a :: p.text)
    rw [head?_cons, drop_one, tail_cons, atoi_port] at hparse
    rw [BackendHost.text, append_assoc]
    exact hparse

theorem BackendHost.text_plain (h : BackendHost) :
    h.text ≠ [] ∧ h.text.head? ≠ some 0x2f ∧ h.text.take 5 ≠ unixText := by
  cases h with
  | name h hne hnopath =>
    refine ⟨hne, hnopath, fun hunix => h.nocolon ?_⟩
    exact mem_of_mem_take (hunix ▸ by decide : 0x3a ∈ h.text.take 5)
  | bracketed addr h =>
    simp [BackendHost.text, unixText]

/-- What the backend of the configuration file is parsed into. -/
structure ParsedAs (info : DomainEntry) (name : List UInt8) (backend : Backend) : Prop where
  domain : info.domain = name
  backend : info.backend = backend
  port : 0 < info.port ∧ info.port ≤ 65535

theorem parseDomain_host {bspec host : List UInt8} {port : ℤ} (hne : bspec ≠ [])
    (hnopath : bspec.head? ≠ some 0x2f) (hnounix : bspec.take 5 ≠ unixText)
    (hparse : parseHostPort bspec = some (host, port)) :
    parseDomain name (some bspec) = .ok ⟨name, some host, none, port⟩ := by
  have hfilter : (some bspec).filter (fun b => decide (b ≠ [])) = some bspec := by simp [hne]
  rw [parseDomain, hfilter]
  dsimp only
  rw [if_neg (not_or.2 ⟨hnounix, hnopath⟩), hparse]

theorem hostPort_plain {h : BackendHost} (hnounix : h.text ++ [0x3a] ≠ unixText)
    (rest : List UInt8) : (h.text ++ 0x3a :: rest).take 5 ≠ unixText := by
  intro hunix
  obtain ⟨-, -, hplain⟩ := h.text_plain
  have hlen : h.text.length < 5 := by
    by_contra hlen
    rw [take_append_of_le_length (by omega)] at hunix
    exact hplain hunix
  -- The colon stands at the end of `"unix:"`.
  have hcolon : unixText[h.text.length]? = some 0x3a := by
    rw [← hunix, getElem?_take_of_lt hlen]
    simp
  have hfour : h.text.length = 4 := by
    interval_cases hn : h.text.length <;> first | rfl | exact absurd hcolon (by decide)
  refine hnounix (Eq.trans ?_ hunix)
  rw [take_append, take_of_length_le (by omega), hfour]
  rfl

theorem PortText.inRange : 0 < (value p.text : ℤ) ∧ (value p.text : ℤ) ≤ 65535 := by
  have hpos := p.pos
  have hle := p.le
  omega

theorem parseDomain_config (b : BackendSpec) :
    ∃ info, parseDomain name (some b.text) = .ok info ∧ ParsedAs info name b.backend ∧
      ¬ (info.backendHost.isNone ∧ info.unixPath.isNone) := by
  have h443 : (0 : ℤ) < 443 ∧ (443 : ℤ) ≤ 65535 := by decide
  cases b with
  | host h =>
    obtain ⟨hne, hnopath, hnounix⟩ := h.text_plain
    exact ⟨_, parseDomain_host name hne hnopath hnounix (parseHostPort_host h), ⟨rfl, rfl, h443⟩,
      by simp⟩
  | hostPort h p hnounix =>
    obtain ⟨hne, hnopath, hplain⟩ := h.text_plain
    have hhead : (h.text ++ 0x3a :: p.text).head? = h.text.head? := head?_append_of_ne_nil _ hne
    have hne' : h.text ++ 0x3a :: p.text ≠ [] := by simp
    exact ⟨_, parseDomain_host name hne' (hhead ▸ hnopath) (hostPort_plain hnounix _)
      (parseHostPort_hostPort h p), ⟨rfl, rfl, p.inRange⟩, by simp⟩
  | address addr a b c hsplit hnobracket hnopath hnounix =>
    have hne : addr ≠ [] := by rw [hsplit]; simp
    exact ⟨_, parseDomain_host name hne hnopath hnounix (parseHostPort_colons hsplit hnobracket),
      ⟨rfl, rfl, h443⟩, by simp⟩
  | unix path =>
    refine ⟨⟨name, none, some path, 443⟩, ?_, ⟨rfl, rfl, h443⟩, by simp⟩
    rfl
  | absolute path =>
    refine ⟨⟨name, none, some (0x2f :: path), 443⟩, ?_, ⟨rfl, rfl, h443⟩, by simp⟩
    rfl

theorem parseDomain_none {name host : List UInt8} {port : ℤ}
    (h : parseHostPort name = some (host, port)) :
    parseDomain name none = .ok ⟨host, none, none, port⟩ := by
  rw [parseDomain, Option.filter_none]
  rw [h]

variable {s : DomainSpec}

theorem parseDomain_split (h : ¬ s.IsUnsplit) :
    ∃ info, parseDomain s.args.1 s.args.2 = .ok info ∧ ParsedAs info s.name.text s.backend ∧
      ((info.backendHost.isNone ∧ info.unixPath.isNone) ↔ ¬ s.HasBackend) := by
  have h443 : (0 : ℤ) < 443 ∧ (443 : ℤ) ≤ 65535 := by decide
  cases s with
  | sni name =>
    exact ⟨_, parseDomain_none (parseHostPort_name name), ⟨rfl, rfl, h443⟩,
      iff_of_true ⟨rfl, rfl⟩ id⟩
  | sniPort name port =>
    exact ⟨_, parseDomain_none (parseHostPort_namePort name port), ⟨rfl, rfl, port.inRange⟩,
      iff_of_true ⟨rfl, rfl⟩ id⟩
  | sniBackendPort name host port => exact absurd trivial h
  | config name backend =>
    obtain ⟨info, hparse, hinfo, hbackend⟩ := parseDomain_config name.text backend
    exact ⟨info, hparse, hinfo, iff_of_false hbackend (not_not.2 trivial)⟩

theorem DomainSpec.IsUnsplit.eq (h : s.IsUnsplit) :
    ∃ name host port, s = .sniBackendPort name host port := by
  cases s with
  | sniBackendPort name host port => exact ⟨name, host, port, rfl⟩
  | _ => exact absurd h id

/-- **`-D sni:backend:port` is not split**: there is more than one colon. -/
theorem parseDomain_unsplit (h : s.IsUnsplit) :
    parseDomain s.args.1 s.args.2 = .ok ⟨s.args.1, none, none, 443⟩ := by
  obtain ⟨name, host, port, rfl⟩ := h.eq
  refine parseDomain_none (parseHostPort_colons (a := name.text) (b := host.text)
    (c := port.text) (by simp [DomainSpec.args]) ?_)
  cases htext : name.text with
  | nil => simp [DomainSpec.args, htext]
  | cons b t =>
    have := name.nobracket
    simpa [DomainSpec.args, htext] using this

theorem head?_args_of_unsplit (h : s.IsUnsplit) : s.args.1.head? = some 0x2a ↔ s.IsWildcard := by
  obtain ⟨name, host, port, rfl⟩ := h.eq
  rw [DomainSpec.IsWildcard, DomainSpec.name, DomainSpec.args]
  cases name.text <;> simp

theorem colon_mem_args (h : s.IsUnsplit) : 0x3a ∈ s.args.1 := by
  obtain ⟨name, host, port, rfl⟩ := h.eq
  simp [DomainSpec.args]

theorem entry_split (h : ¬ s.IsUnsplit) (hinfo : s.entry = some info) :
    info.domain = s.name.text ∧ info.backend = s.backend ∧
      (s.IsWildcard → isWildcardDomain s.name.text = true ∧ s.HasBackend) := by
  obtain ⟨info', hparse, hparsed, hbackend⟩ := parseDomain_split h
  unfold DomainSpec.entry at hinfo
  rw [hparse] at hinfo
  change (checkDomain info').toOption = some info at hinfo
  unfold checkDomain at hinfo
  rw [if_neg (by have := hparsed.port; omega), hparsed.domain] at hinfo
  split_ifs at hinfo with hwild hvalid hnone
  · cases hinfo
  · cases hinfo
  · cases hinfo
    refine ⟨hparsed.domain, hparsed.backend, fun _ => ⟨by simpa using hvalid, ?_⟩⟩
    exact not_not.1 (mt hbackend.2 hnone)
  · cases hinfo
    exact ⟨hparsed.domain, hparsed.backend, fun h => absurd h hwild⟩

theorem exists_entry_split (h : ¬ s.IsUnsplit)
    (hgood : s.IsWildcard → isWildcardDomain s.name.text = true ∧ s.HasBackend) :
    ∃ info, s.entry = some info := by
  obtain ⟨info, hparse, hparsed, hbackend⟩ := parseDomain_split h
  refine ⟨info, ?_⟩
  unfold DomainSpec.entry
  rw [hparse]
  change (checkDomain info).toOption = some info
  unfold checkDomain
  rw [if_neg (by have := hparsed.port; omega), hparsed.domain]
  split_ifs with hwild hvalid hnone
  · exact absurd (hgood hwild).1 (by simpa using hvalid)
  · exact absurd (hgood hwild).2 (hbackend.1 hnone)
  · rfl
  · rfl

/-- The entry of a specification that is not split: for its whole text, and only if that does not
start like a pattern. -/
theorem entry_unsplit (h : s.IsUnsplit) :
    s.entry = some info ↔ ¬ s.IsWildcard ∧ info = ⟨s.args.1, none, none, 443⟩ := by
  unfold DomainSpec.entry
  rw [parseDomain_unsplit h]
  change (checkDomain _).toOption = some info ↔ _
  unfold checkDomain
  dsimp only
  rw [if_neg (by decide)]
  rw [← head?_args_of_unsplit h]
  split_ifs with hwild hvalid hnone
  · simp [Except.toOption, hwild]
  · simp [Except.toOption, hwild]
  · exact absurd ⟨rfl, rfl⟩ hnone
  · simp [Except.toOption, hwild, eq_comm]

theorem wildcardMatch_iff (pattern sni : List UInt8) :
    wildcardMatch pattern sni = true ↔
      ∃ label, label ≠ [] ∧ 0x2e ∉ label ∧ 0x2a ∉ label ∧ sni = label ++ pattern.drop 1 := by
  unfold wildcardMatch
  dsimp only
  constructor
  · intro h
    split_ifs at h with hlen hdot hstar
    refine ⟨sni.take (sni.length - (pattern.drop 1).length), ?_, by simpa using hdot,
      by simpa using hstar, ?_⟩
    · refine ne_nil_of_length_pos ?_
      rw [length_take]
      omega
    · have hrest := (take_append_drop (sni.length - (pattern.drop 1).length) sni).symm
      rwa [of_decide_eq_true h] at hrest
  · rintro ⟨label, hne, hdot, hstar, rfl⟩
    have hpos := length_pos_of_ne_nil hne
    have hlabel : (label ++ pattern.drop 1).length - (pattern.drop 1).length = label.length := by
      rw [length_append, Nat.add_sub_cancel]
    rw [hlabel, drop_left, if_neg (by omega),
      if_neg (by simpa using hdot), if_neg (by simpa using hstar)]
    exact decide_eq_true rfl

/-! ### Selection -/

/-- The entry has the name and the backend that are written in the specification. -/
structure DomainEntry.IsOf (info : DomainEntry) (s : DomainSpec) : Prop where
  domain : info.domain = s.name.text
  backend : info.backend = s.backend

/-- **What the selection should be**: an entry for exactly the name if there is one, else a pattern
that covers it, else nothing. -/
structure SelectsRight (specs : List DomainSpec) (sni : List UInt8)
    (selected : Option DomainEntry) : Prop where
  exactly : (∃ s ∈ specs, s.IsExactly sni) →
    ∃ s ∈ specs, s.IsExactly sni ∧ ∃ info, selected = some info ∧ info.IsOf s
  pattern : (¬ ∃ s ∈ specs, s.IsExactly sni) → (∃ s ∈ specs, ∃ label, s.Covers sni label) →
    ∃ s ∈ specs, (∃ label, s.Covers sni label) ∧ ∃ info, selected = some info ∧ info.IsOf s
  nothing : (¬ ∃ s ∈ specs, s.IsExactly sni) → (¬ ∃ s ∈ specs, ∃ label, s.Covers sni label) →
    selected = none

/-- **When the selection is not what it should be.** -/
inductive Misselected (specs : List DomainSpec) (sni : List UInt8) : Prop
  /-- The name is only given in the form `-D sni:backend:port`. -/
  | exactly (h : ∃ s ∈ specs, s.IsExactly sni)
      (hall : ∀ s ∈ specs, s.IsExactly sni → s.IsUnsplit)
  /-- The patterns that cover the name are all given in that form, or the label has a `*`. -/
  | pattern (hno : ¬ ∃ s ∈ specs, s.IsExactly sni) (h : ∃ s ∈ specs, ∃ label, s.Covers sni label)
      (hall : ∀ s ∈ specs, ∀ label, s.Covers sni label → s.IsUnsplit ∨ 0x2a ∈ label)
  /-- The name is the whole text `sni:backend:port` of a specification. -/
  | whole (s : DomainSpec) (hs : s ∈ specs) (hunsplit : s.IsUnsplit) (hno : ¬ s.IsWildcard)
      (htext : s.args.1 = sni)

theorem DomainEntry.isFor_iff (sni : List UInt8) (info : DomainEntry) :
    info.isFor sni = true ↔ info.domain.head? ≠ some 0x2a ∧ info.domain = sni := by
  simp [DomainEntry.isFor, DomainEntry.isWildcard]

theorem DomainEntry.covers_iff (sni : List UInt8) (info : DomainEntry) :
    info.covers sni = true ↔
      info.domain.head? = some 0x2a ∧ wildcardMatch info.domain sni = true := by
  simp [DomainEntry.covers, DomainEntry.isWildcard]

/-- An entry for a name is that of a specification for exactly this name, or it is the whole text of
one that is not split. -/
theorem entry_isFor (hentry : s.entry = some info) (hfor : info.isFor sni = true) :
    (¬ s.IsUnsplit ∧ s.IsExactly sni ∧ info.IsOf s) ∨
      (s.IsUnsplit ∧ ¬ s.IsWildcard ∧ s.args.1 = sni) := by
  obtain ⟨hhead, hname⟩ := (DomainEntry.isFor_iff sni info).1 hfor
  by_cases hunsplit : s.IsUnsplit
  · obtain ⟨hno, rfl⟩ := (entry_unsplit hunsplit).1 hentry
    exact Or.inr ⟨hunsplit, hno, hname⟩
  · obtain ⟨hdomain, hbackend, -⟩ := entry_split hunsplit hentry
    rw [hdomain] at hhead hname
    exact Or.inl ⟨hunsplit, ⟨hhead, hname⟩, hdomain, hbackend⟩

theorem entry_covers (hentry : s.entry = some info) (hcovers : info.covers sni = true) :
    ¬ s.IsUnsplit ∧ (∃ label, s.Covers sni label ∧ 0x2a ∉ label) ∧ info.IsOf s := by
  obtain ⟨hhead, hmatch⟩ := (DomainEntry.covers_iff sni info).1 hcovers
  by_cases hunsplit : s.IsUnsplit
  · obtain ⟨hno, rfl⟩ := (entry_unsplit hunsplit).1 hentry
    exact absurd ((head?_args_of_unsplit hunsplit).1 hhead) hno
  · obtain ⟨hdomain, hbackend, hgood⟩ := entry_split hunsplit hentry
    rw [hdomain] at hhead hmatch
    obtain ⟨label, hne, hdot, hstar, hsplit⟩ := (wildcardMatch_iff _ _).1 hmatch
    exact ⟨hunsplit, ⟨label, ⟨hhead, (hgood hhead).1, (hgood hhead).2, hne, hdot, hsplit⟩, hstar⟩,
      hdomain, hbackend⟩

theorem exists_isFor_split (hunsplit : ¬ s.IsUnsplit) (h : s.IsExactly sni) :
    ∃ info, s.entry = some info ∧ info.isFor sni = true := by
  obtain ⟨info, hentry⟩ := exists_entry_split hunsplit fun hwild => absurd hwild h.1
  have hdomain := (entry_split hunsplit hentry).1
  refine ⟨info, hentry, (DomainEntry.isFor_iff sni info).2 ?_⟩
  rw [hdomain]
  exact h

theorem exists_isFor_unsplit (hunsplit : s.IsUnsplit) (hno : ¬ s.IsWildcard) :
    ∃ info, s.entry = some info ∧ info.isFor s.args.1 = true := by
  refine ⟨_, (entry_unsplit hunsplit).2 ⟨hno, rfl⟩, (DomainEntry.isFor_iff _ _).2 ⟨?_, rfl⟩⟩
  exact fun hhead => hno ((head?_args_of_unsplit hunsplit).1 hhead)

theorem exists_covers_split {label : List UInt8} (hunsplit : ¬ s.IsUnsplit) (h : s.Covers sni label)
    (hstar : 0x2a ∉ label) : ∃ info, s.entry = some info ∧ info.covers sni = true := by
  obtain ⟨info, hentry⟩ := exists_entry_split hunsplit fun _ => ⟨h.valid, h.backend⟩
  have hdomain := (entry_split hunsplit hentry).1
  refine ⟨info, hentry, (DomainEntry.covers_iff sni info).2 ?_⟩
  rw [hdomain]
  exact ⟨h.wildcard, (wildcardMatch_iff _ _).2 ⟨label, h.nonempty, h.one, hstar, h.split⟩⟩

theorem text_ne_of_isExactly {t : DomainSpec} (hs : s.IsUnsplit) (ht : t.IsExactly sni) :
    s.args.1 ≠ sni := by
  intro htext
  have hcolon := colon_mem_args hs
  rw [htext, ← ht.2] at hcolon
  exact t.name.nocolon hcolon

/-- The three results of a lookup after registering the specifications. -/
inductive Lookup (specs : List DomainSpec) (sni : List UInt8) : Option DomainEntry → Prop
  | exactly (s : DomainSpec) (hs : s ∈ specs) (info : DomainEntry) (hentry : s.entry = some info)
      (hfor : info.isFor sni = true) : Lookup specs sni (some info)
  | pattern (hno : ∀ s ∈ specs, ∀ info, s.entry = some info → ¬ info.isFor sni = true)
      (s : DomainSpec) (hs : s ∈ specs) (info : DomainEntry) (hentry : s.entry = some info)
      (hcovers : info.covers sni = true) : Lookup specs sni (some info)
  | nothing (hno : ∀ s ∈ specs, ∀ info, s.entry = some info → ¬ info.isFor sni = true)
      (hnone : ∀ s ∈ specs, ∀ info, s.entry = some info → ¬ info.covers sni = true) :
      Lookup specs sni none

variable {specs : List DomainSpec}

theorem mem_entries :
    info ∈ specs.reverse.filterMap DomainSpec.entry ↔ ∃ s ∈ specs, s.entry = some info := by
  simp [mem_filterMap]

theorem find?_entries_none {p : DomainEntry → Bool}
    (h : (specs.reverse.filterMap DomainSpec.entry).find? p = none) :
    ∀ s ∈ specs, ∀ info, s.entry = some info → ¬ p info = true :=
  fun s hs info hentry => find?_eq_none.1 h info (mem_entries.2 ⟨s, hs, hentry⟩)

theorem lookup_registerAll (specs : List DomainSpec) (sni : List UInt8) :
    Lookup specs sni (getDomainInfo (registerAll specs) sni) := by
  rw [registerAll_eq, getDomainInfo_eq]
  cases hfor : (specs.reverse.filterMap DomainSpec.entry).find? (·.isFor sni) with
  | some info =>
    obtain ⟨s, hs, hentry⟩ := mem_entries.1 (mem_of_find?_eq_some hfor)
    exact .exactly s hs info hentry (find?_some hfor)
  | none =>
    cases hcovers : (specs.reverse.filterMap DomainSpec.entry).find? (·.covers sni) with
    | some info =>
      obtain ⟨s, hs, hentry⟩ := mem_entries.1 (mem_of_find?_eq_some hcovers)
      exact .pattern (find?_entries_none hfor) s hs info hentry (find?_some hcovers)
    | none => exact .nothing (find?_entries_none hfor) (find?_entries_none hcovers)

theorem selectsRight_of_lookup {selected : Option DomainEntry} (hlookup : Lookup specs sni selected)
    (h : ¬ Misselected specs sni) : SelectsRight specs sni selected := by
  have hexact : (∃ s ∈ specs, s.IsExactly sni) → ∃ s ∈ specs, s.IsExactly sni ∧ ¬ s.IsUnsplit := by
    intro hex
    by_contra hall
    push Not at hall
    exact h (.exactly hex hall)
  have hpattern : (¬ ∃ s ∈ specs, s.IsExactly sni) → (∃ s ∈ specs, ∃ label, s.Covers sni label) →
      ∃ s ∈ specs, ∃ label, s.Covers sni label ∧ ¬ s.IsUnsplit ∧ 0x2a ∉ label := by
    intro hno hex
    by_contra hall
    push Not at hall
    refine h (.pattern hno hex fun s hs label hcov => ?_)
    exact or_iff_not_imp_left.2 (hall s hs label hcov)
  -- An entry for the name is never the whole text of a specification.
  have hwhole {s : DomainSpec} {info : DomainEntry} (hs : s ∈ specs)
      (hentry : s.entry = some info) (hfor : info.isFor sni = true) :
      s.IsExactly sni ∧ info.IsOf s := by
    rcases entry_isFor hentry hfor with hgood | ⟨hunsplit, hno, htext⟩
    · exact hgood.2
    · exact absurd (.whole s hs hunsplit hno htext) h
  -- A specification for the name that is split has an entry.
  have hfound (hno : ∀ s ∈ specs, ∀ info, s.entry = some info → ¬ info.isFor sni = true) :
      ¬ ∃ s ∈ specs, s.IsExactly sni := by
    intro hex
    obtain ⟨s, hs, hexactly, hsplit⟩ := hexact hex
    obtain ⟨info, hentry, hfor⟩ := exists_isFor_split hsplit hexactly
    exact hno s hs info hentry hfor
  cases hlookup with
  | exactly s hs info hentry hfor =>
    have hgood := hwhole hs hentry hfor
    have hex : ∃ s ∈ specs, s.IsExactly sni := ⟨s, hs, hgood.1⟩
    exact ⟨fun _ => ⟨s, hs, hgood.1, info, rfl, hgood.2⟩, fun hno => absurd hex hno,
      fun hno => absurd hex hno⟩
  | pattern hno s hs info hentry hcovers =>
    obtain ⟨-, ⟨label, hcov, -⟩, hof⟩ := entry_covers hentry hcovers
    exact ⟨fun hex => absurd hex (hfound hno),
      fun _ _ => ⟨s, hs, ⟨label, hcov⟩, info, rfl, hof⟩,
      fun _ hnone => absurd ⟨s, hs, label, hcov⟩ hnone⟩
  | nothing hno hnone =>
    refine ⟨fun hex => absurd hex (hfound hno), fun hno' hex => ?_, fun _ _ => rfl⟩
    obtain ⟨s, hs, label, hcov, hsplit, hstar⟩ := hpattern hno' hex
    obtain ⟨info, hentry, hcovers⟩ := exists_covers_split hsplit hcov hstar
    exact absurd hcovers (hnone s hs info hentry)

theorem not_selectsRight_of_misselected {selected : Option DomainEntry}
    (hlookup : Lookup specs sni selected) (h : Misselected specs sni) :
    ¬ SelectsRight specs sni selected := by
  intro hright
  cases h with
  | exactly hex hall =>
    obtain ⟨t, ht, hexactly, info, rfl, hof⟩ := hright.exactly hex
    cases hlookup with
    | exactly s hs _ hentry hfor =>
      rcases entry_isFor hentry hfor with ⟨hsplit, hs', -⟩ | ⟨hunsplit, -, htext⟩
      · exact hsplit (hall s hs hs')
      · exact text_ne_of_isExactly hunsplit hexactly htext
    | pattern _ s hs _ hentry hcovers =>
      have hhead := ((DomainEntry.covers_iff sni info).1 hcovers).1
      rw [hof.domain] at hhead
      exact hexactly.1 hhead
  | pattern hno hex hall =>
    obtain ⟨t, ht, ⟨label, hcov⟩, info, rfl, hof⟩ := hright.pattern hno hex
    cases hlookup with
    | exactly s hs _ hentry hfor =>
      have hhead := ((DomainEntry.isFor_iff sni info).1 hfor).1
      rw [hof.domain] at hhead
      exact hhead hcov.wildcard
    | pattern _ s hs _ hentry hcovers =>
      obtain ⟨hsplit, ⟨label', hcov', hstar⟩, -⟩ := entry_covers hentry hcovers
      exact (hall s hs label' hcov').elim hsplit hstar
  | whole s hs hunsplit hno htext =>
    obtain ⟨info', hentry', hfor'⟩ := exists_isFor_unsplit hunsplit hno
    rw [htext] at hfor'
    have hnoex : ¬ ∃ s ∈ specs, s.IsExactly sni := by
      rintro ⟨t, -, ht⟩
      exact text_ne_of_isExactly hunsplit ht htext
    cases hlookup with
    | exactly t ht info hentry hfor =>
      by_cases hex : ∃ s ∈ specs, ∃ label, s.Covers sni label
      · obtain ⟨u, -, ⟨label, hcov⟩, info'', hsome, hof⟩ := hright.pattern hnoex hex
        cases hsome
        have hhead := ((DomainEntry.isFor_iff sni info).1 hfor).1
        rw [hof.domain] at hhead
        exact hhead hcov.wildcard
      · cases hright.nothing hnoex hex
    | pattern hnone => exact hnone s hs info' hentry' hfor'
    | nothing hnone => exact hnone s hs info' hentry' hfor'

/-- **The selection of a camouflage domain is right exactly when no specification in the form
`-D sni:backend:port` is needed for it.** -/
theorem domain_selection (specs : List DomainSpec) (sni : List UInt8) :
    SelectsRight specs sni (getDomainInfo (registerAll specs) sni) ↔ ¬ Misselected specs sni :=
  ⟨fun hright hmis => not_selectsRight_of_misselected (lookup_registerAll specs sni) hmis hright,
    selectsRight_of_lookup (lookup_registerAll specs sni)⟩

/-- `-D a:b:443`. -/
def unsplitSpec : DomainSpec :=
  .sniBackendPort ⟨[0x61], by decide, by decide⟩
    (.name ⟨[0x62], by decide, by decide⟩ (by decide) (by decide))
    ⟨[0x34, 0x34, 0x33], by decide, by decide, by decide⟩

/-- After `-D a:b:443` nothing is selected for the name `a`, which should go to port 443 of `b`; the
entry is for the name `a:b:443`. -/
theorem domain_selection_unsplit :
    unsplitSpec.IsExactly [0x61] ∧ unsplitSpec.backend = .tcp [0x62] 443 ∧
      getDomainInfo (registerAll [unsplitSpec]) [0x61] = none ∧
      getDomainInfo (registerAll [unsplitSpec]) [0x61, 0x3a, 0x62, 0x3a, 0x34, 0x34, 0x33] =
        some ⟨[0x61, 0x3a, 0x62, 0x3a, 0x34, 0x34, 0x33], none, none, 443⟩ ∧
      ¬ SelectsRight [unsplitSpec] [0x61] (getDomainInfo (registerAll [unsplitSpec]) [0x61]) := by
  have hnone : getDomainInfo (registerAll [unsplitSpec]) [0x61] = none := by decide +kernel
  have hexact : unsplitSpec.IsExactly [0x61] :=
    ⟨show ([0x61] : List UInt8).head? ≠ some 0x2a by decide, rfl⟩
  refine ⟨hexact, rfl, hnone, by decide +kernel, fun hright => ?_⟩
  obtain ⟨-, -, -, info, hsome, -⟩ := hright.exactly ⟨unsplitSpec, mem_singleton_self _, hexact⟩
  cases hsome

end Mtbolt.ExtServer
