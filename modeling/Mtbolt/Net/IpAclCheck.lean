import Mtbolt.Lib.EventRun
import Mtbolt.Net.IpAcl

/-!
# The decision on a client

`ip_acl_check_v4` and `ip_acl_check_v6` (`net-ip-acl.c`) decide on a client by the lists that
`ip_acl_reload` has loaded: at the start, where a failure is fatal, and on every `SIGHUP`, where a
file that cannot be read leaves the old list in force.
-/

namespace Mtbolt.Net

open CString (InetPton)
open EventRun Option List BitVec

/-! ### The check -/

/-- `current_blocklist` and `current_allowlist`. -/
structure AclState where
  currentBlocklist : Option (List AclRule)
  currentAllowlist : Option (List AclRule)
  deriving DecidableEq

/-- `acl_contains_v4`. -/
def aclContainsV4 (acl : Option (List AclRule)) (ip : BitVec 32) : Bool :=
  match acl with
  | none => false
  | some rules => rules.any fun r => matchV4 r ip

/-- `acl_contains_v6`. -/
def aclContainsV6 (acl : Option (List AclRule)) (ipv6 : Ipv6) : Bool :=
  match acl with
  | none => false
  | some rules => rules.any fun r => matchV6 r ipv6

/-- `::ffff:x.x.x.x`. -/
def IsV4Mapped (ipv6 : Ipv6) : Prop :=
  (∀ i : Fin 10, ipv6 (i.castLE (by decide)) = 0) ∧ ipv6 10 = 0xFF ∧ ipv6 11 = 0xFF

instance (ipv6 : Ipv6) : Decidable (IsV4Mapped ipv6) := inferInstanceAs (Decidable (_ ∧ _ ∧ _))

/-- The last four bytes of an address. -/
def lastWord (ipv6 : Ipv6) : BitVec 32 := ipv6 12 ++ ipv6 13 ++ ipv6 14 ++ ipv6 15

/-- `v6_to_v4_mapped`: zero also for an address that is not mapped. -/
def v6ToV4Mapped (ipv6 : Ipv6) : BitVec 32 := if IsV4Mapped ipv6 then lastWord ipv6 else 0

/-- A list is loaded and has a rule. -/
def inUse (acl : Option (List AclRule)) : Bool := acl.any fun rules => !rules.isEmpty

/-- `ip_acl_check_v4`. -/
def ipAclCheckV4 (st : AclState) (ip : BitVec 32) : Bool :=
  if inUse st.currentAllowlist then aclContainsV4 st.currentAllowlist ip
  else if inUse st.currentBlocklist then !aclContainsV4 st.currentBlocklist ip
  else true

/-- `ip_acl_check_v6`. -/
def ipAclCheckV6 (st : AclState) (ipv6 : Ipv6) : Bool :=
  let v4 := v6ToV4Mapped ipv6
  if inUse st.currentAllowlist then
    if aclContainsV6 st.currentAllowlist ipv6 then true
    else if v4 ≠ 0 && aclContainsV4 st.currentAllowlist v4 then true
    else false
  else if inUse st.currentBlocklist then
    if aclContainsV6 st.currentBlocklist ipv6 then false
    else if v4 ≠ 0 && aclContainsV4 st.currentBlocklist v4 then false
    else true
  else true

/-- The check of a client of either family. -/
def ipAclCheck (st : AclState) : Address → Bool
  | .inet ip => ipAclCheckV4 st ip
  | .inet6 ipv6 => ipAclCheckV6 st ipv6

/-! ### Loading -/

/-- `blocklist_file` and `allowlist_file`. -/
structure AclConfig (π : Type) where
  blocklistFile : Option π
  allowlistFile : Option π

variable {π : Type} (pton : InetPton Ipv6) (cfg : AclConfig π)

/-- One list of `ip_acl_reload`: the new one if the file can be read, otherwise the old one; `none`
when there is neither. -/
def reloadList (file : Option π) (fs : π → Option (List UInt8)) (current : Option (List AclRule)) :
    Option (Option (List AclRule)) :=
  match file with
  | none => some current
  | some path =>
    match (fs path).map (ipAclLoad pton) with
    | some new => some (some new)
    | none => if current.isNone then none else some current

/-- `ip_acl_reload` with the files as they are at the time; `none` for the result `-1`. -/
def ipAclReload (st : AclState) (fs : π → Option (List UInt8)) : Option AclState :=
  if cfg.blocklistFile.isNone ∧ cfg.allowlistFile.isNone then some st
  else
    (reloadList pton cfg.blocklistFile fs st.currentBlocklist).bind fun bl =>
      (reloadList pton cfg.allowlistFile fs st.currentAllowlist).map fun al => ⟨bl, al⟩

/-- Before the first load. -/
def AclState.start : AclState := ⟨none, none⟩

/-- The list that was read last from a file, in a sequence of reloads. -/
def lastLoaded (file : Option π) (fss : List (π → Option (List UInt8))) : Option (List AclRule) :=
  file.bind fun path => ((fss.filterMap fun fs => fs path).getLast?).map (ipAclLoad pton)

theorem lastLoaded_append_singleton (file : Option π) (fss : List (π → Option (List UInt8)))
    (fs : π → Option (List UInt8)) :
    lastLoaded pton file (fss ++ [fs]) =
      file.bind fun path => (fs path).elim (lastLoaded pton file fss)
        fun bytes => some (ipAclLoad pton bytes) := by
  cases file with
  | none => rfl
  | some path =>
    simp only [lastLoaded, bind_some, filterMap_append]
    cases hfs : fs path with
    | none => simp [hfs]
    | some bytes => simp [hfs]

variable {fss : List (π → Option (List UInt8))} {acl : Option (List AclRule)}

theorem reloadList_lastLoaded {pton : InetPton Ipv6} {file : Option π} {fs : π → Option (List UInt8)}
    {new : Option (List AclRule)}
    (h : reloadList pton file fs (lastLoaded pton file fss) = some new) :
    new = lastLoaded pton file (fss ++ [fs]) ∧ (file.isSome → new.isSome) := by
  rw [lastLoaded_append_singleton]
  cases file with
  | none =>
    cases h
    exact ⟨rfl, fun hsome => hsome⟩
  | some path =>
    unfold reloadList at h
    rw [bind_some]
    dsimp only at h
    cases hfs : fs path with
    | none =>
      rw [hfs] at h
      dsimp only [map_none] at h
      split_ifs at h with hnone
      cases h
      exact ⟨rfl, fun _ => by simpa [isSome_iff_ne_none] using hnone⟩
    | some bytes =>
      rw [hfs] at h
      cases h
      exact ⟨rfl, fun _ => rfl⟩

/-- **The lists in force** after any reloads: those that were read last, and there is one for each
configured file. -/
theorem currentLists {pton : InetPton Ipv6} {cfg : AclConfig π} {st : AclState}
    (h : run (ipAclReload pton cfg) .start fss = some st) :
    st.currentBlocklist = lastLoaded pton cfg.blocklistFile fss ∧
      st.currentAllowlist = lastLoaded pton cfg.allowlistFile fss ∧
      (fss ≠ [] → cfg.allowlistFile.isSome → st.currentAllowlist.isSome) := by
  induction fss using reverseRecOn generalizing st with
  | nil =>
    cases h
    refine ⟨?_, ?_, fun hne => absurd rfl hne⟩
    · cases cfg.blocklistFile <;> rfl
    · cases cfg.allowlistFile <;> rfl
  | append_singleton fss fs ih =>
    rw [run_append] at h
    obtain ⟨st', hst', hlast⟩ := bind_eq_some_iff.1 h
    obtain ⟨hbl, hal, -⟩ := ih hst'
    obtain ⟨st'', hreload, hnil⟩ := bind_eq_some_iff.1 hlast
    cases hnil
    unfold ipAclReload at hreload
    split_ifs at hreload with hnofile
    · cases hreload
      rw [hbl, hal, isNone_iff_eq_none.1 hnofile.1, isNone_iff_eq_none.1 hnofile.2]
      exact ⟨rfl, rfl, fun _ hsome => hsome⟩
    · obtain ⟨bl, hreadb, hrest⟩ := bind_eq_some_iff.1 hreload
      obtain ⟨al, hreada, rfl⟩ := map_eq_some_iff.1 hrest
      rw [hbl] at hreadb
      rw [hal] at hreada
      obtain ⟨hblnew, -⟩ := reloadList_lastLoaded hreadb
      obtain ⟨halnew, hsome⟩ := reloadList_lastLoaded hreada
      exact ⟨hblnew, halnew, fun _ => hsome⟩

/-! ### The meaning of the lists -/

/-- An address is on a list: a rule matches it, or it is an IPv4 address in IPv6 form and a rule
matches that. -/
def Listed (rules : List AclRule) : Address → Prop
  | .inet ip => ∃ r ∈ rules, r.matches (.inet ip) = true
  | .inet6 ipv6 =>
    ∃ r ∈ rules, r.matches (.inet6 ipv6) = true ∨
      IsV4Mapped ipv6 ∧ r.matches (.inet (lastWord ipv6)) = true

/-- `::ffff:0.0.0.0`, which `v6_to_v4_mapped` does not tell from an address that is not mapped. -/
def IsMappedZero : Address → Prop
  | .inet _ => False
  | .inet6 ipv6 => IsV4Mapped ipv6 ∧ lastWord ipv6 = 0

/-- An address is seen on a list: the check finds a rule for it. -/
def Seen (rules : List AclRule) (x : Address) : Prop :=
  Listed rules x ∧ (IsMappedZero x → ∃ r ∈ rules, r.matches x = true)

/-- **The meaning of the two lists**: a client is admitted if it is on the allowlist, when there is
one, and not on the blocklist. -/
def Admitted (cfg : AclConfig π) (st : AclState) (x : Address) : Prop :=
  (cfg.allowlistFile = none ∨ Listed (st.currentAllowlist.getD []) x) ∧
    ¬ Listed (st.currentBlocklist.getD []) x

/-- The lists and addresses for which the check gives the right decision.  Without an allowlist that
is every address; `::ffff:0.0.0.0` apart, with an allowlist that has rules the addresses that are not
on both lists, and with one that has none the addresses on the blocklist. -/
def DecidedRight (cfg : AclConfig π) (al bl : List AclRule) (x : Address) : Prop :=
  if cfg.allowlistFile.isNone then Listed bl x → Seen bl x
  else if al.isEmpty then Seen bl x
  else (Seen al x → ¬ Listed bl x) ∧ (Listed al x → ¬ Seen al x → Listed bl x)

theorem listed_nil (x : Address) : ¬ Listed [] x := by
  cases x <;> simp [Listed]

/-! ### The decision -/

/-- The search of either check in one list. -/
def aclSees (acl : Option (List AclRule)) : Address → Bool
  | .inet ip => aclContainsV4 acl ip
  | .inet6 ipv6 =>
    aclContainsV6 acl ipv6 || (v6ToV4Mapped ipv6 ≠ 0 && aclContainsV4 acl (v6ToV4Mapped ipv6))

theorem aclContainsV4_iff (acl : Option (List AclRule)) (ip : BitVec 32) :
    aclContainsV4 acl ip = true ↔ ∃ r ∈ acl.getD [], r.matches (.inet ip) = true := by
  cases acl <;> simp [aclContainsV4, AclRule.matches]

theorem aclContainsV6_iff (acl : Option (List AclRule)) (ipv6 : Ipv6) :
    aclContainsV6 acl ipv6 = true ↔ ∃ r ∈ acl.getD [], r.matches (.inet6 ipv6) = true := by
  cases acl <;> simp [aclContainsV6, AclRule.matches]

theorem aclSees_iff (acl : Option (List AclRule)) (x : Address) :
    aclSees acl x = true ↔ Seen (acl.getD []) x := by
  cases x with
  | inet ip =>
    rw [aclSees, aclContainsV4_iff]
    exact ⟨fun h => ⟨h, fun hzero => hzero.elim⟩, fun h => h.1⟩
  | inet6 ipv6 =>
    rw [aclSees, Bool.or_eq_true, Bool.and_eq_true, aclContainsV6_iff, aclContainsV4_iff,
      decide_eq_true_eq]
    constructor
    · rintro (⟨r, hr, hmatch⟩ | ⟨hne, r, hr, hmatch⟩)
      · exact ⟨⟨r, hr, .inl hmatch⟩, fun _ => ⟨r, hr, hmatch⟩⟩
      · -- A nonzero result says that the address is mapped.
        have hmapped : IsV4Mapped ipv6 := by
          by_contra hnot
          exact hne (if_neg hnot)
        rw [v6ToV4Mapped, if_pos hmapped] at hne hmatch
        exact ⟨⟨r, hr, .inr ⟨hmapped, hmatch⟩⟩, fun hzero => absurd hzero.2 hne⟩
    · rintro ⟨⟨r, hr, hmatch | ⟨hmapped, hmatch⟩⟩, hzero⟩
      · exact .inl ⟨r, hr, hmatch⟩
      · by_cases hword : lastWord ipv6 = 0
        · exact .inl (hzero ⟨hmapped, hword⟩)
        · rw [v6ToV4Mapped, if_pos hmapped]
          exact .inr ⟨hword, r, hr, hmatch⟩

theorem getD_of_not_inUse (h : inUse acl = false) : acl.getD [] = [] := by
  cases acl with
  | none => rfl
  | some rules => simpa [inUse] using h

/-- The check looks into one list only. -/
theorem ipAclCheck_eq (st : AclState) (x : Address) :
    ipAclCheck st x =
      if inUse st.currentAllowlist then aclSees st.currentAllowlist x
      else !aclSees st.currentBlocklist x := by
  have hunused (h : inUse st.currentBlocklist = false) : aclSees st.currentBlocklist x = false := by
    rw [← Bool.not_eq_true, aclSees_iff, getD_of_not_inUse h]
    exact fun hseen => listed_nil x hseen.1
  cases hbl : inUse st.currentBlocklist with
  | true =>
    cases x <;> simp [ipAclCheck, ipAclCheckV4, ipAclCheckV6, aclSees, hbl]
  | false =>
    rw [hunused hbl]
    cases x <;> simp [ipAclCheck, ipAclCheckV4, ipAclCheckV6, aclSees, hbl]

/-- **The decision on a client** after any reloads, the first of which was successful: the lists are
those that were read last, and the check admits whom they admit exactly if it decides right. -/
theorem ip_acl_decision {pton : InetPton Ipv6} {cfg : AclConfig π}
    {fss : List (π → Option (List UInt8))} {st : AclState} (hne : fss ≠ [])
    (h : run (ipAclReload pton cfg) .start fss = some st) (x : Address) :
    st.currentBlocklist = lastLoaded pton cfg.blocklistFile fss ∧
      st.currentAllowlist = lastLoaded pton cfg.allowlistFile fss ∧
      ((ipAclCheck st x = true ↔ Admitted cfg st x) ↔
        DecidedRight cfg (st.currentAllowlist.getD []) (st.currentBlocklist.getD []) x) := by
  obtain ⟨hbl, hal, hloaded⟩ := currentLists h
  have hseen {rules : List AclRule} (hs : Seen rules x) : Listed rules x := hs.1
  rw [ipAclCheck_eq]
  unfold Admitted DecidedRight
  cases hfile : cfg.allowlistFile with
  | none =>
    -- no allowlist is configured, so none is loaded
    have hnone : st.currentAllowlist = none := by
      rw [hal, hfile]
      rfl
    have hunused : inUse st.currentAllowlist = false := by
      rw [hnone]
      rfl
    rw [hunused]
    simp only [Bool.false_eq_true, if_false, Bool.not_eq_true', ← Bool.not_eq_true, aclSees_iff,
      true_or, true_and, isNone_none, if_true]
    grind
  | some path =>
    obtain ⟨rules, hrules⟩ := isSome_iff_exists.1 (hloaded hne (by rw [hfile]; rfl))
    rw [hrules]
    cases rules with
    | nil =>
      have hempty := listed_nil x
      simp only [inUse, any_some, isEmpty_nil, Bool.not_true, Bool.false_eq_true,
        if_false, Bool.not_eq_true', ← Bool.not_eq_true, aclSees_iff, getD_some,
        isNone_some, if_true, reduceCtorEq, false_or]
      grind
    | cons r rules =>
      simp only [inUse, any_some, isEmpty_cons, Bool.not_false, if_true, aclSees_iff,
        getD_some, isNone_some, Bool.false_eq_true, if_false, reduceCtorEq, false_or]
      grind

/-- Both lists are configured; `true` is the allowlist. -/
def bothLists : AclConfig Bool := ⟨some false, some true⟩

/-- The rule for `10.0.0.1`. -/
def sampleRule : AclRule := .inet 0x0a000001#32 32 (by decide) (by decide)

/-- The allowlist has the sample address, the blocklist none. -/
def allowedOnly : Bool → Option (List UInt8) := fun b => some (if b then sampleText else [])

theorem ip_acl_decision_allowedOnly :
    ∃ st, run (ipAclReload sampleAddresses bothLists) .start [allowedOnly] = some st ∧
      ipAclCheck st (.inet 0x0a000001#32) = true ∧ Admitted bothLists st (.inet 0x0a000001#32) := by
  have hrun : run (ipAclReload sampleAddresses bothLists) .start [allowedOnly] =
      some ⟨some [], some [sampleRule]⟩ := by decide +kernel
  obtain ⟨-, -, hdecision⟩ := ip_acl_decision (by simp) hrun (.inet 0x0a000001#32)
  have hright : DecidedRight bothLists [sampleRule] [] (.inet 0x0a000001#32) :=
    ⟨fun _ => listed_nil _, fun hlisted hseen =>
      absurd ⟨hlisted, fun hzero => hzero.elim⟩ hseen⟩
  have hcheck : ipAclCheck ⟨some [], some [sampleRule]⟩ (.inet 0x0a000001#32) = true := by decide
  exact ⟨_, hrun, hcheck, (hdecision.2 hright).1 hcheck⟩

/-- An address on both lists is accepted; and everybody is when the allowlist has no rule. -/
theorem ip_acl_decision_open :
    (∃ st, run (ipAclReload sampleAddresses bothLists) .start [fun _ => some sampleText] =
        some st ∧ ipAclCheck st (.inet 0x0a000001#32) = true ∧
          ¬ Admitted bothLists st (.inet 0x0a000001#32)) ∧
    (∃ st, run (ipAclReload sampleAddresses bothLists) .start [fun _ => some []] = some st ∧
      ipAclCheck st (.inet 0x0b000001#32) = true ∧
        ¬ Admitted bothLists st (.inet 0x0b000001#32)) := by
  refine ⟨⟨⟨some [sampleRule], some [sampleRule]⟩, by decide +kernel, by decide, fun h => h.2 ?_⟩,
    ⟨⟨some [], some []⟩, by decide +kernel, by decide, fun h => ?_⟩⟩
  · exact ⟨sampleRule, mem_singleton_self _, by decide⟩
  · rcases h.1 with hnone | hlisted
    · cases hnone
    · exact listed_nil _ hlisted

/-! ### IPv4 addresses in IPv6 form -/

/-- `::ffff:a`. -/
def mappedAddress (a : BitVec 32) : Ipv6 := fun i =>
  if i.val < 10 then 0 else if i.val < 12 then 0xFF else a.extractLsb' (8 * (15 - i.val)) 8

theorem lastWord_mappedAddress (a : BitVec 32) : lastWord (mappedAddress a) = a := by
  apply eq_of_getLsbD_eq
  have hbytes : lastWord (mappedAddress a) = a.extractLsb' 24 8 ++ a.extractLsb' 16 8 ++
      a.extractLsb' 8 8 ++ a.extractLsb' 0 8 := rfl
  rw [hbytes]
  simp only [getLsbD_append, getLsbD_extractLsb']
  grind

def AclRule.IsInet : AclRule → Prop
  | .inet .. => True
  | .inet6 .. => False

/-- The rule is for a network that starts at `0.0.0.0`. -/
def AclRule.IsFromZero : AclRule → Prop
  | .inet addr .. => addr = 0
  | .inet6 .. => False

/-- Both lists have rules for IPv4 only. -/
structure AclState.InetOnly (st : AclState) : Prop where
  allow : ∀ r ∈ st.currentAllowlist.getD [], r.IsInet
  block : ∀ r ∈ st.currentBlocklist.getD [], r.IsInet

/-- The rules that the checks look at. -/
def AclState.consulted (st : AclState) : List AclRule :=
  if inUse st.currentAllowlist then st.currentAllowlist.getD [] else st.currentBlocklist.getD []

theorem matches_zero_iff (r : AclRule) : r.matches (.inet 0) = true ↔ r.IsFromZero := by
  cases r with
  | inet addr p hle hmasked =>
    have hzero : maskV4 0 p = 0 := by
      unfold maskV4
      split_ifs
      · rfl
      · rfl
      · exact zero_and
    simp only [AclRule.matches, matchV4, hzero, decide_eq_true_eq, AclRule.IsFromZero]
    exact eq_comm
  | inet6 addr p hle hmasked => exact ⟨fun h => Bool.noConfusion h, fun h => h.elim⟩

/-- A list of IPv4 rules has a mapped address exactly as the address itself, except `0.0.0.0`. -/
theorem seen_mappedAddress {rules : List AclRule} (h : ∀ r ∈ rules, r.IsInet) (a : BitVec 32) :
    Seen rules (.inet6 (mappedAddress a)) ↔ a ≠ 0 ∧ Seen rules (.inet a) := by
  have hnone (r : AclRule) (hr : r ∈ rules) : r.matches (.inet6 (mappedAddress a)) = false := by
    have hinet := h r hr
    cases r with
    | inet addr p hle hmasked => rfl
    | inet6 addr p hle hmasked => exact hinet.elim
  have hmapped : IsV4Mapped (mappedAddress a) := ⟨fun i => if_pos i.isLt, rfl, rfl⟩
  have hword := lastWord_mappedAddress a
  constructor
  · rintro ⟨⟨r, hr, hmatch | ⟨-, hmatch⟩⟩, hzero⟩
    · exact absurd hmatch (Bool.eq_false_iff.1 (hnone r hr))
    · rw [hword] at hmatch
      refine ⟨?_, ⟨r, hr, hmatch⟩, fun h => h.elim⟩
      rintro rfl
      obtain ⟨r', hr', hmatch'⟩ := hzero ⟨hmapped, hword⟩
      exact absurd hmatch' (Bool.eq_false_iff.1 (hnone r' hr'))
  · rintro ⟨hne, ⟨r, hr, hmatch⟩, -⟩
    refine ⟨⟨r, hr, .inr ⟨hmapped, ?_⟩⟩, fun hzero => ?_⟩
    · rw [hword]
      exact hmatch
    · exact absurd (hword.symm.trans hzero.2) hne

theorem aclSees_mappedAddress (h : ∀ r ∈ acl.getD [], r.IsInet) (a : BitVec 32) :
    aclSees acl (.inet6 (mappedAddress a)) = aclSees acl (.inet a) ↔
      a ≠ 0 ∨ ∀ r ∈ acl.getD [], ¬ r.IsFromZero := by
  rw [Bool.eq_iff_iff, aclSees_iff, aclSees_iff, seen_mappedAddress h]
  by_cases ha : a = 0
  · subst ha
    have hseen : Seen (acl.getD []) (.inet 0) ↔ ∃ r ∈ acl.getD [], r.IsFromZero := by
      simp only [← matches_zero_iff]
      exact ⟨fun hs => hs.1, fun hl => ⟨hl, fun hz => hz.elim⟩⟩
    rw [hseen]
    simp
  · exact iff_of_true (and_iff_right ha) (.inl ha)

/-- **The two checks agree on IPv4 rules**, except on `0.0.0.0` when a rule of the list that is
looked at is for a network that starts there. -/
theorem ip_acl_mapped {st : AclState} (h : st.InetOnly) (a : BitVec 32) :
    ipAclCheckV6 st (mappedAddress a) = ipAclCheckV4 st a ↔
      a ≠ 0 ∨ ∀ r ∈ st.consulted, ¬ r.IsFromZero := by
  have hv6 : ipAclCheckV6 st (mappedAddress a) = _ := ipAclCheck_eq st (.inet6 (mappedAddress a))
  have hv4 : ipAclCheckV4 st a = _ := ipAclCheck_eq st (.inet a)
  rw [hv6, hv4, AclState.consulted]
  by_cases hallow : inUse st.currentAllowlist = true
  · rw [if_pos hallow, if_pos hallow, if_pos hallow]
    exact aclSees_mappedAddress h.allow a
  · rw [if_neg hallow, if_neg hallow, if_neg hallow, Bool.not_inj_iff]
    exact aclSees_mappedAddress h.block a

/-- The rule for `0.0.0.0/8`. -/
def zeroRule : AclRule := .inet 0#32 8 (by decide) (by decide)

/-- `10.0.0.1` is on the blocklist in either form. -/
theorem ip_acl_mapped_sampleRule :
    ipAclCheckV6 ⟨some [sampleRule], none⟩ (mappedAddress 0x0a000001#32) =
      ipAclCheckV4 ⟨some [sampleRule], none⟩ 0x0a000001#32 :=
  (ip_acl_mapped ⟨fun _ hr => absurd hr not_mem_nil, fun r hr => by
    obtain rfl := mem_singleton.1 hr
    exact trivial⟩ 0x0a000001#32).2 (.inl (by decide))

/-- `0.0.0.0` is refused and `::ffff:0.0.0.0` is admitted by the blocklist `0.0.0.0/8`. -/
theorem ip_acl_mapped_zeroRule :
    (AclState.InetOnly ⟨some [zeroRule], none⟩) ∧
      ipAclCheckV4 ⟨some [zeroRule], none⟩ 0#32 = false ∧
      ipAclCheckV6 ⟨some [zeroRule], none⟩ (mappedAddress 0#32) = true := by
  refine ⟨⟨fun _ hr => absurd hr not_mem_nil, fun r hr => ?_⟩, by decide, by decide⟩
  obtain rfl := mem_singleton.1 hr
  exact trivial

end Mtbolt.Net
