import Mtbolt.Worker.Accounting
import Mtbolt.Worker.Changes

/-!
# Connections bound to a slot

A connection remembers its secret as the index of a slot.  Reloads drain and revive slots, and the
drain sweeper releases a drained slot once its counter is zero; what keeps a slot from going to
another secret under a connection is that the counter is never too low.
-/

namespace Mtbolt.Worker

open EventRun Secrets

/-- A counted connection stays counted under its slot, and a closed one stays closed. -/
structure Conn.Bound (c d : Conn) : Prop where
  countedAs : ∀ s, c.countedAs = some s → d.countedAs = some s
  closeRan : c.closeRan = true → d.closeRan = true

variable {cfg : WorkerConfig} {w : State} {e : Event} {s : ℕ}

/-- A connection before its handshake is not yet counted, so that a header may count it. -/
theorem Change.bound {j : ℕ} {c : Conn} (h : Change cfg w j e c) (hok : (w.conns j).Ok) :
    (w.conns j).Bound c := by
  have hbound {d : Conn} (hbefore : (w.conns j).beforeHandshake = true)
      (hrun : d.closeRan = (w.conns j).closeRan) : (w.conns j).Bound d :=
    ⟨fun s hs => by simp [(hok.beforeHandshake hbefore).2.2.2.1] at hs, fun h => hrun ▸ h⟩
  cases h with
  | rejected hbefore => exact hbound hbefore rfl
  | admitted hbefore _ | unknownDc hbefore | dialFailed hbefore | dialled hbefore _ =>
    exact hbound hbefore (Conn.closeRan_letIn ..)
  | closed _ => exact ⟨fun _ h => h, fun _ => rfl⟩
  | closeRan _ => exact ⟨fun _ h => h, fun _ => rfl⟩
  | _ => exact ⟨fun _ h => h, id⟩

theorem SlotChange.key {x y : Slot} (h : SlotChange x y) : y.key = x.key := by
  cases h with
  | counted addr =>
    unfold Slot.connect ipTrackConnect
    split_ifs <;> rfl
  | uncounted addr =>
    unfold Slot.disconnect ipTrackDisconnect
    split
    · rfl
    · split_ifs <;> rfl
  | _ => rfl

/-- Reload and release change the key of a slot only where it was free or is free afterwards. -/
theorem key_of_used {w' : State} (h : step cfg w e = some w') (hused : (w.tbl.slot s).state ≠ .free)
    (hused' : (w'.tbl.slot s).state ≠ .free) : (w'.tbl.slot s).key = (w.tbl.slot s).key := by
  rcases slot_handle h with hslot | ⟨entries, -, htbl⟩ | ⟨s', -, htbl⟩
  · exact (hslot s).key
  · rw [htbl]
    rcases reload_cases w.tbl entries s with hkept | ⟨-, -, hfree, -⟩
    · exact hkept.key
    · exact absurd hfree hused
  · rw [htbl] at hused' ⊢
    rcases release_cases w.tbl s' s with hsame | ⟨-, -, -, hzero⟩
    · rw [hsame]
    · rw [hzero] at hused'
      exact absurd rfl hused'

/-- What holds of the connection `i` after it was counted under `s`, which had the key `key`. -/
structure BoundTo (i s : ℕ) (key : List UInt8) (w : State) : Prop where
  ledger : Ledger false w
  apart : Apart w
  lt : i < w.next
  counted : (w.conns i).countedAs = some s
  slot : (w.conns i).closeRan = false → (w.tbl.slot s).key = key

theorem BoundTo.used {i : ℕ} {key : List UInt8} (h : BoundTo i s key w)
    (hopen : (w.conns i).closeRan = false) : (w.tbl.slot s).state ≠ .free :=
  h.ledger.slot_used h.lt h.counted hopen

theorem boundTo_step {i : ℕ} {key : List UInt8} {w' : State} (hw : BoundTo i s key w)
    (hok : SecretAdmission w e) (h : step cfg w e = some w') : BoundTo i s key w' := by
  have hledger := ledger_handle hw.ledger hok (fun hex => by cases hex) h
  have hbound := (change_handle hw.apart h hw.lt).bound (hw.ledger.conn i hw.lt)
  have hlt : i < w'.next := hw.lt.trans_le (next_le_handle h)
  have hcounted := hbound.countedAs s hw.counted
  refine ⟨hledger, apart_handle hw.apart h, hlt, hcounted, fun hopen' => ?_⟩
  have hopen : (w.conns i).closeRan = false :=
    Bool.eq_false_iff.2 fun hrun => by simp [hbound.closeRan hrun] at hopen'
  rw [key_of_used h (hw.used hopen) (hledger.slot_used hlt hcounted hopen')]
  exact hw.slot hopen

/-- **A slot keeps its secret while a connection is counted under it**: in every run in which no
client is let in while no slot is in use, from the header that counts the client `i` under `s` to the
close of `i`, the slot is in use and has the key that authenticated the header. -/
theorem slot_binding_stable (cfg : WorkerConfig) (cli : List SecretEntry) {t : SecretTable}
    (hcli : pinExtSecrets cli = some t) (now : ℤ) (es es' : List Event) (i s : ℕ) (dc : DcOutcome)
    {w₁ w₂ w₃ : State}
    (hok : Along (step cfg) SecretAdmission (start t now) (es ++ .header i s dc :: es'))
    (h₁ : run (step cfg) (start t now) es = some w₁)
    (h₂ : step cfg w₁ (.header i s dc) = some w₂) (h₃ : run (step cfg) w₂ es' = some w₃)
    (hcounted : (w₂.conns i).countedAs = some s) (hopen : (w₃.conns i).closeRan = false) :
    (w₃.tbl.slot s).state ≠ .free ∧ (w₃.tbl.slot s).key = (w₁.tbl.slot s).key := by
  obtain ⟨hok₁, hrest⟩ := hok.of_append
  have hok₂ := hrest w₁ h₁
  have hw₁ : Ledger false w₁ ∧ Apart w₁ :=
    run_invariant (I := fun w => Ledger false w ∧ Apart w)
      (fun _ _ _ hw hok h =>
        ⟨ledger_handle hw.1 hok (fun hex => by cases hex) h, apart_handle hw.2 h⟩)
      ⟨ledger_start hcli now, apart_start t now⟩ hok₁ h₁
  have hlt : i < w₁.next := by
    have hen := (step_eq_some h₂).1
    exact hen.1.1
  -- the header itself touches no key
  have hw₂ : BoundTo i s (w₁.tbl.slot s).key w₂ := by
    refine ⟨ledger_handle hw₁.1 hok₂.1 (fun hex => by cases hex) h₂, apart_handle hw₁.2 h₂,
      hlt.trans_le (next_le_handle h₂), hcounted, fun _ => ?_⟩
    rcases slot_handle h₂ with hslot | ⟨entries, he, -⟩ | ⟨s', he, -⟩
    · exact (hslot s).key
    · cases he
    · cases he
  have hw₃ := run_invariant (fun _ _ _ hw hok h => boundTo_step hw hok h) hw₂ (hok₂.tail h₂) h₃
  exact ⟨hw₃.used hopen, hw₃.slot hopen⟩

instance (w : State) (e : Event) : Decidable (SecretAdmission w e) := by
  induction e using Event.casesOn <;> dsimp only [SecretAdmission] <;> infer_instance

/-- Two secrets of a configuration. -/
def sampleFirst : SecretEntry := ⟨List.replicate 16 1, "first", 0, 0, 0, 0, 0⟩
def sampleSecond : SecretEntry := ⟨List.replicate 16 2, "second", 0, 0, 0, 0, 0⟩

/-- A worker without a command-line secret. -/
def sampleNoSecret : SecretTable := ⟨fun _ => Slot.zero, 0, 0⟩

/-- A client of the first secret stays while the secret is drained, swept over, and the second one
configured. -/
theorem slot_binding_stable_drained :
    pinExtSecrets [] = some sampleNoSecret ∧
      ∃ w, (run (step ⟨1, true⟩) (start sampleNoSecret 0)
          [.reload [sampleFirst], .accept ⟨1, 0⟩, .header 0 0 .linked, .reload [], .release 0,
            .reload [sampleSecond]] = some w ∧ (w.conns 0).closeRan = false) ∧
        (w.tbl.slot 0).state ≠ .free ∧ (w.tbl.slot 0).key = sampleFirst.key := by
  obtain ⟨w₁, h₁, hkey, w₂, hstep, hcounted, w₃, hrest, hopen⟩ :
      ∃ w₁, run (step ⟨1, true⟩) (start sampleNoSecret 0)
        [.reload [sampleFirst], .accept ⟨1, 0⟩] = some w₁ ∧
      (w₁.tbl.slot 0).key = sampleFirst.key ∧
      ∃ w₂, step ⟨1, true⟩ w₁ (.header 0 0 .linked) = some w₂ ∧
      (w₂.conns 0).countedAs = some 0 ∧
      ∃ w₃, run (step ⟨1, true⟩) w₂ [.reload [], .release 0, .reload [sampleSecond]] = some w₃ ∧
        (w₃.conns 0).closeRan = false := by decide +kernel
  obtain ⟨hused, hsame⟩ := slot_binding_stable ⟨1, true⟩ [] (t := sampleNoSecret) rfl 0
    [.reload [sampleFirst], .accept ⟨1, 0⟩] [.reload [], .release 0, .reload [sampleSecond]] 0 0
    .linked (by decide +kernel) h₁ hstep hrest hcounted hopen
  have hrun : run (step ⟨1, true⟩) (start sampleNoSecret 0)
      ([.reload [sampleFirst], .accept ⟨1, 0⟩] ++
        .header 0 0 .linked :: [.reload [], .release 0, .reload [sampleSecond]]) = some w₃ := by
    rw [run_append, h₁, Option.bind_some, run_cons_of_eq _ hstep, hrest]
  exact ⟨rfl, w₃, ⟨hrun, hopen⟩, hused, hsame.trans hkey⟩

/-- A client that is let in while no slot is in use is counted under a free slot, and the next secret
of a configuration gets this slot while the client is open. -/
theorem slot_binding_broken :
    pinExtSecrets [] = some sampleNoSecret ∧
      (∃ w, run (step ⟨1, true⟩) (start sampleNoSecret 0)
        [.reload [sampleFirst], .reload [], .release 0, .accept ⟨1, 0⟩, .header 0 0 .linked] =
          some w ∧ (w.conns 0).countedAs = some 0 ∧ (w.conns 0).closeRan = false ∧
          (w.tbl.slot 0).state = .free) ∧
      ∃ w, run (step ⟨1, true⟩) (start sampleNoSecret 0)
        [.reload [sampleFirst], .reload [], .release 0, .accept ⟨1, 0⟩, .header 0 0 .linked,
          .reload [sampleSecond]] = some w ∧
        (w.conns 0).countedAs = some 0 ∧ (w.conns 0).closeRan = false ∧
        (w.tbl.slot 0).state = .active ∧ (w.tbl.slot 0).key = sampleSecond.key ∧
        (w.tbl.slot 0).connections = 0 := by
  refine ⟨rfl, by decide +kernel, by decide +kernel⟩

end Mtbolt.Worker
