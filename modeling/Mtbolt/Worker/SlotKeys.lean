import Mtbolt.Secrets.ReloadSpec
import Mtbolt.Secrets.TomlConfig
import Mtbolt.Worker.Binding

/-!
# The keys of the slots in use

A slot is found by its key, so no two slots in use should have the same one.  A reload keeps to this
for the secrets that it finds in the table: pass B matches every entry of the configuration against
all slots in use, and a repeated entry refreshes its slot once more.  Pass D does not look at keys.  A
new secret that the configuration lists twice, which `parse_secrets` lets through, gets two slots.
-/

namespace Mtbolt.Secrets

theorem release_distinct {t : SecretTable} (ht : t.Distinct) (s₀ : ℕ) :
    (releaseSlotIfEmpty t s₀).Distinct := by
  intro s hlt s' hlt' hused hused' hkey
  have hsame : ∀ {u}, ((releaseSlotIfEmpty t s₀).slot u).state ≠ .free →
      (releaseSlotIfEmpty t s₀).slot u = t.slot u := by
    intro u hu
    rcases release_cases t s₀ u with h | ⟨-, -, -, h⟩
    · exact h
    · rw [h] at hu
      exact absurd rfl hu
  rw [hsame hused, hsame hused'] at hkey
  rw [hsame hused] at hused
  rw [hsame hused'] at hused'
  exact ht s hlt s' hlt' hused hused' hkey

/-! ### The command line -/

/-- The slots filled so far are those of the secrets read so far. -/
structure Pinning (cli : List SecretEntry) (t : SecretTable) : Prop where
  cnt : t.cnt = cli.length
  slot : ∀ s, t.slot s = (cli[s]?).elim Slot.zero (Slot.fresh s)

variable {cli : List SecretEntry}

theorem pinning_foldlM {done : List SecretEntry} {t t' : SecretTable} (ht : Pinning done t)
    (h : cli.foldlM setExtSecret t = some t') : Pinning (done ++ cli) t' := by
  induction cli generalizing t done with
  | nil =>
    cases h
    rwa [List.append_nil]
  | cons e cli ih =>
    obtain ⟨t₁, ht₁, hrest⟩ := Option.bind_eq_some_iff.1 h
    rw [← List.singleton_append, ← List.append_assoc]
    refine ih ?_ hrest
    unfold setExtSecret at ht₁
    split_ifs at ht₁
    cases ht₁
    refine ⟨by simp [ht.cnt], fun s => ?_⟩
    dsimp only
    rw [ht.cnt]
    by_cases hs : s = done.length
    · subst hs
      simp
    · rw [Function.update_of_ne hs, ht.slot s]
      rcases Nat.lt_or_gt_of_ne hs with hlt | hgt
      · rw [List.getElem?_append_left hlt]
      · rw [List.getElem?_eq_none (by omega), List.getElem?_eq_none (by simp; omega)]

theorem slot_pinExtSecrets {t : SecretTable}
    (h : pinExtSecrets cli = some t) (s : ℕ) : t.slot s = (cli[s]?).elim Slot.zero (Slot.fresh s) := by
  obtain ⟨t', ht', rfl⟩ := Option.map_eq_some_iff.1 h
  exact (@pinning_foldlM cli [] _ _ ⟨rfl, fun _ => rfl⟩ ht').slot s

theorem distinct_pinExtSecrets_iff {t : SecretTable}
    (h : pinExtSecrets cli = some t) : t.Distinct ↔ (cli.map (·.key)).Nodup := by
  have hslot := slot_pinExtSecrets h
  have hlen : cli.length ≤ maxSlots := by
    obtain ⟨t', ht', rfl⟩ := Option.map_eq_some_iff.1 h
    have hcnt := (@pinning_foldlM cli [] _ _ ⟨rfl, fun _ => rfl⟩ ht').cnt
    have hle := (pinExtSecrets_loading h).1.cnt
    simp only [List.nil_append] at hcnt
    rw [← hcnt]
    exact hle.trans (by decide)
  have hused : ∀ s, (t.slot s).state ≠ .free ↔ s < cli.length := by
    intro s
    rw [hslot]
    by_cases hs : s < cli.length
    · rw [List.getElem?_eq_getElem hs]
      exact iff_of_true nofun hs
    · rw [List.getElem?_eq_none (by omega)]
      exact iff_of_false (fun h => h rfl) hs
  have hkey : ∀ s < cli.length, (cli.map (·.key))[s]? = some (t.slot s).key := by
    intro s hs
    rw [List.getElem?_map, hslot, List.getElem?_eq_getElem hs]
    rfl
  rw [List.nodup_iff_getElem?_ne_getElem?]
  constructor
  · intro hdistinct i j hij hj heq
    rw [List.length_map] at hj
    rw [hkey i (by omega), hkey j hj] at heq
    have hsame := hdistinct i (by omega) j (by omega) ((hused i).2 (by omega)) ((hused j).2 hj)
      (Option.some.inj heq)
    omega
  · intro hno s _ s' _ hs hs' hk
    rw [hused] at hs hs'
    have heq : (cli.map (·.key))[s]? = (cli.map (·.key))[s']? := by
      rw [hkey s hs, hkey s' hs', hk]
    rcases Nat.lt_trichotomy s s' with hlt | rfl | hgt
    · exact absurd heq (hno s s' hlt (by simpa using hs'))
    · rfl
    · exact absurd heq.symm (hno s' s hgt (by simpa using hs))

end Mtbolt.Secrets

namespace Mtbolt.Worker

open Secrets EventRun

/-- Every reload lists the new secrets once. -/
def ReloadsOnce (w : State) : Event → Prop
  | .reload entries => w.tbl.NewKeysOnce entries
  | _ => True

instance (w : State) (e : Event) : Decidable (ReloadsOnce w e) := by
  induction e using Event.casesOn <;> dsimp only [ReloadsOnce] <;> infer_instance

theorem SlotChange.state {x y : Slot} (h : SlotChange x y) : y.state = x.state := by
  cases h with
  | counted addr => exact state_connect x addr
  | uncounted addr => exact state_disconnect x addr
  | _ => rfl

theorem SlotChange.distinct {t t' : SecretTable} (ht : t.Distinct)
    (h : ∀ s, SlotChange (t.slot s) (t'.slot s)) : t'.Distinct := by
  intro s hlt s' hlt' hused hused' hkey
  rw [(h s).state] at hused
  rw [(h s').state] at hused'
  rw [(h s).key, (h s').key] at hkey
  exact ht s hlt s' hlt' hused hused' hkey

/-- **One step**: only a reload that lists a new secret twice breaks it. -/
theorem distinct_step_iff (cfg : WorkerConfig) (w : State) (e : Event) (hw : w.tbl.Distinct) :
    (∀ w', step cfg w e = some w' → w'.tbl.Distinct) ↔ ReloadsOnce w e := by
  by_cases hreload : ∃ entries, e = .reload entries
  · obtain ⟨entries, rfl⟩ := hreload
    have hstep : step cfg w (.reload entries) =
        some { w with tbl := (reloadExtSecrets w.tbl entries).2 } := rfl
    rw [hstep]
    simp only [Option.some.injEq, forall_eq']
    exact reload_distinct_iff hw
  · have hfree : ReloadsOnce w e := by
      cases e with
      | reload entries => exact absurd ⟨entries, rfl⟩ hreload
      | _ => trivial
    refine iff_of_true (fun w' h => ?_) hfree
    rcases slot_handle h with hslot | ⟨entries, he, -⟩ | ⟨s, -, htbl⟩
    · exact SlotChange.distinct hw hslot
    · exact absurd ⟨entries, he⟩ hreload
    · rw [htbl]
      exact release_distinct hw s

/-- **The keys of the slots in use over whole runs**: they are distinct in every state of a run of the
worker exactly if the command line gives distinct secrets and every reload of the run lists the new
ones once. -/
theorem slot_keys_distinct (cfg : WorkerConfig) {cli : List SecretEntry} {t : SecretTable}
    (hcli : pinExtSecrets cli = some t) (now : ℤ) (es : List Event) :
    (∀ fs, fs <+: es → ∀ w, run (step cfg) (start t now) fs = some w → w.tbl.Distinct) ↔
      (cli.map (·.key)).Nodup ∧ Along (step cfg) ReloadsOnce (start t now) es :=
  (forall_run_iff_along (distinct_step_iff cfg)).trans
    (and_congr_left fun _ => distinct_pinExtSecrets_iff hcli)

/-- A secret is refreshed, drained, released and given again. -/
theorem slot_keys_distinct_cameBack :
    pinExtSecrets [sampleSecret 0] = some (sampleTable 0) ∧
      ∃ w, run (step ⟨1, true⟩) (start (sampleTable 0) 0)
        [.reload [sampleFirst, sampleSecond], .reload [sampleSecond, sampleSecond], .release 1,
          .reload [sampleFirst, sampleSecond]] = some w ∧ w.tbl.Distinct := by
  have hrun : ∃ w, run (step ⟨1, true⟩) (start (sampleTable 0) 0)
      [.reload [sampleFirst, sampleSecond], .reload [sampleSecond, sampleSecond], .release 1,
        .reload [sampleFirst, sampleSecond]] = some w := ⟨_, rfl⟩
  obtain ⟨w, hw⟩ := hrun
  refine ⟨rfl, w, hw, ?_⟩
  refine (slot_keys_distinct ⟨1, true⟩ (show pinExtSecrets [sampleSecret 0] = some (sampleTable 0)
    from rfl) 0 _).2 ⟨by decide, by decide +kernel⟩ _ (List.prefix_refl _) w hw

/-- A configuration with the same secret twice. -/
def sampleTwice : Datum :=
  .table [("secret", .array [.table [("key", .string (List.replicate 32 0x30))],
    .table [("key", .string (List.replicate 32 0x30))]])]

/-- The parser lets the configuration through, and the secret gets two slots. -/
theorem slot_keys_repeated :
    parseSecrets (fun _ => 0) sampleTwice = .ok [zeroSecret, zeroSecret] ∧
      pinExtSecrets [] = some sampleNoSecret ∧
      ∃ w, run (step ⟨1, true⟩) (start sampleNoSecret 0) [.reload [zeroSecret, zeroSecret]] =
        some w ∧ (w.tbl.slot 0).state = .active ∧ (w.tbl.slot 1).state = .active ∧
          (w.tbl.slot 0).key = (w.tbl.slot 1).key := by
  refine ⟨rfl, rfl, by decide +kernel⟩

end Mtbolt.Worker
