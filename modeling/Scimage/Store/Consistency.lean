import Scimage.Store.Trail
import Scimage.Lib.Sequential

/-! Directory, audit trail and outbox over runs of calls one after another. -/
namespace Scimage.Store

open Txn Engine

/-- A call on its own, with what the outside gives to each of its effects. -/
def Mutation.perform (pg : Postgres) (s : Store) (m : Mutation)
    (supply : Nat → Supply Env DbError) (db : Db) : Except StoreError Unit × Db :=
  let r := (engine pg).run supply (m.call s).run (World.start db)
  (r.1, r.2.db)

inductive Reachable (pg : Postgres) (s : Store) : Db → Prop where
  | empty : Reachable pg s .empty
  | call {db : Db} (m : Mutation) (supply : Nat → Supply Env DbError) : Reachable pg s db →
      Reachable pg s (m.perform pg s supply db).2

variable {pg : Postgres} {s : Store} {m : Mutation} {supply : Nat → Supply Env DbError} {db : Db}

theorem mutations_readsQuietly {P : List (Entry Stmt.Rows) → Prop} :
    (engine pg).ReadsQuietly (mutations P) :=
  fun _ h => h.elim

/-- On its own, a transaction is disturbed by none. -/
def Calm (pg : Postgres) : Condition Stmt.Rows Write Env :=
  fun log prior x => ∀ κ, Undisturbed pg κ log prior x

theorem calm_alone {prior : History} {x : Turn Stmt Env} : Calm pg [] prior x := by
  intro κ _ c hc
  simp at hc

theorem perform_settled (pg : Postgres) (s : Store) (m : Mutation) (supply : Nat → Supply Env DbError) (db : Db) :
    ∃ st, (engine pg).Matches (mutations (m.History s)) db st
        ((engine pg).run supply (m.call s).run (World.start db)).2 ∧
      Settled (m.perform pg s supply db).1 st :=
  run_wp mutations_readsQuietly supply (m.call_wp fun _ h => h) (start_matches (E := engine pg) db)

theorem perform_ok (h : (m.perform pg s supply db).1 = .ok ()) :
    ∃ now hist t dir entry queue,
      Footprint pg s m db (Calm pg) [] now hist t dir entry queue ∧
        (m.perform pg s supply db).2 = (engine pg).view db hist := by
  obtain ⟨st, hmatch, hsettled⟩ := perform_settled pg s m supply db
  rw [h] at hsettled
  obtain ⟨es, rfl⟩ := hsettled
  obtain ⟨hcommit, now, hist, rfl, halone, hdb⟩ := hmatch
  have hs := Alone.imp (R := Calm pg) (fun _ _ => calm_alone) halone
  obtain ⟨t, dir, entry, queue, hf⟩ := history_footprint hcommit hs
  exact ⟨now, hist, t, dir, entry, queue, hf, hdb⟩

/-- A call that fails leaves the database as it was, but for a note of its refusal. -/
theorem perform_error {e : StoreError} (h : (m.perform pg s supply db).1 = .error e) :
    (m.perform pg s supply db).2 = db ∨ Denial db (m.perform pg s supply db).2 := by
  obtain ⟨st, hmatch, hsettled⟩ := perform_settled pg s m supply db
  rw [h] at hsettled
  rcases hsettled with rfl | rfl | rfl
  · exact Or.inl hmatch.1
  · exact Or.inl hmatch
  · rcases hmatch with hdb | ⟨stmt, now, env, rows, ws, hnote, hx, hdb⟩
    · exact Or.inl hdb
    · have hdb' : (m.perform pg s supply db).2 = (engine pg).applyAll db ws := hdb
      rw [hdb']
      exact Or.inr (denied_denial hnote hx)

theorem reachable_mirrored (h : Reachable pg s db) (t : Target) : Mirrored t db := by
  induction h with
  | empty => exact mirrored_empty t
  | @call db m supply _ ih =>
    cases hr : (m.perform pg s supply db).1 with
    | ok u =>
      obtain ⟨now, hist, u, dir, entry, queue, hf, hdb⟩ := perform_ok hr
      rw [hdb]
      exact hf.mirrored (fun _ _ _ h => h t.key) ih
    | error e =>
      rcases perform_error hr with hdb | hd
      · rwa [hdb]
      · exact hd.mirrored ih

/-- Replaying the successful entries gives the directory; a call that fails changes nothing but
for a note of its refusal; a call that succeeds adds one entry and one delivery that agree. -/
theorem directory_trail_outbox_in_step (h : Reachable pg ⟨true⟩ db) :
    (∀ t, auditJournal.replay db.successes (some t) = db.image t) ∧
    (∀ m supply e, (Mutation.perform pg ⟨true⟩ m supply db).1 = .error e →
      let db' := (m.perform pg ⟨true⟩ supply db).2
      db'.users = db.users ∧ db'.groups = db.groups ∧ db'.members = db.members ∧
        db'.deliveries = db.deliveries ∧ db'.successes = db.successes ∧
        (db'.auditLog = db.auditLog ∨
          ∃ a, a.result = .denied ∧ db'.auditLog = db.auditLog ++ [a])) ∧
    ∀ m supply, (Mutation.perform pg ⟨true⟩ m supply db).1 = .ok () →
      let db' := (m.perform pg ⟨true⟩ supply db).2
      ∃ t entry d, db'.auditLog = db.auditLog ++ [entry] ∧
        db'.deliveries = db.deliveries ++ [d] ∧ entry.result = .success ∧
        entry.target = some t ∧ d.target = some t ∧ d.payload.before = entry.before ∧
        d.payload.after = entry.after ∧ entry.tenantID = m.caller.tenantID ∧
        d.tenantID = m.tenantID := by
  refine ⟨fun t => (reachable_mirrored h t).replay, ?_, ?_⟩
  · intro m supply e he
    rcases perform_error he with hdb | hd
    · simp [hdb]
    · exact ⟨hd.users, hd.groups, hd.members, hd.deliveries, hd.successes, Or.inr hd.auditLog⟩
  · intro m supply hok
    obtain ⟨now, hist, t, dir, entry, queue, hf, hdb⟩ := perform_ok hok
    obtain ⟨hlog, hqueue⟩ := hf.logs db
    obtain ⟨d, rfl⟩ := List.length_eq_one_iff.mp hf.queue_length
    have hd := hf.announced d (by simp)
    rw [hdb]
    exact ⟨t, entry, d, hlog, hqueue, hf.result, hf.target, hd.target, hd.before, hd.after,
      hf.tenant, hd.tenant⟩

/-! A call whose audit record names another tenant than its argument: the entry follows the
record, the delivery the argument. -/

def createAnn : Mutation := .createUser "tenant_a" (newUser "ann") ⟨"key", "", "tenant_a"⟩

def annSupply (_ : Nat) : Supply Env DbError := ⟨⟨someUuid, 1⟩, 5, 5, none⟩

theorem ann_in_step : auditJournal.replay
    (createAnn.perform plainText ⟨true⟩ annSupply .empty).2.successes (some (.user someUuid)) =
      some (.user { newUser "ann" with id := someUuid.text, createdAt := 5, updatedAt := 5 }) :=
  ((directory_trail_outbox_in_step (.call createAnn annSupply .empty)).1 _).trans rfl

theorem entry_and_delivery_name_two_tenants :
    let r := Mutation.perform plainText ⟨true⟩
      (.createUser "tenant_a" (newUser "ann") ⟨"key", "", "tenant_b"⟩)
      annSupply .empty
    r.1 = .ok () ∧ r.2.auditLog.map AuditRow.tenantID = ["tenant_b"] ∧
      r.2.deliveries.map DeliveryRow.tenantID = ["tenant_a"] :=
  ⟨rfl, rfl, rfl⟩

end Scimage.Store
