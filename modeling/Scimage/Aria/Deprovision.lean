import Scimage.Aria.Detect
import Scimage.Store.Recorded

/-! Deprovisioning as the outbox and as a review see it. -/
namespace Scimage.Aria

open Txn
open Store (Time AuditRow Action Outcome Resource Mutation Db Env DbError Postgres scanUser)

/-! ### Entries -/

/-- A successful entry that took a user from active to inactive, or deleted a group. -/
def deprovisions (e : AuditRow) : Bool :=
  e.result = .success && match e.before, e.after with
    | some (.user b), some (.user a) => b.active && !a.active
    | some (.group _), none => true
    | _, _ => false

/-- Some closed window holds enough of the caller's entries that deprovision. -/
def BulkDeprovisioned (log : List AuditRow) (caller : String) : Prop :=
  ∃ a, bulkCount ≤ ((log.filter fun e => e.actorToken = caller ∧ deprovisions e).filter fun e =>
    a ≤ e.loggedAt ∧ e.loggedAt ≤ a + bulkWindow).length

/-- A review that counts the entries that deprovision flags who deprovisioned in bulk. -/
theorem flagsBulk_of_counted {log : List AuditRow} {tenantID : String} {since now : Time}
    {loc : Location} (caller : String) (h : ∀ e ∈ log, isDeactivation e = deprovisions e) :
    (detect log tenantID since now loc).flagsBulk caller ↔ BulkDeprovisioned log caller := by
  rw [flagsBulk_iff, BulkDeprovisioned]
  have hsame : (mine caller log).filter isDeactivation =
      log.filter fun e => e.actorToken = caller ∧ deprovisions e := by
    rw [mine, List.filter_filter]
    refine List.filter_congr fun e he => ?_
    rw [h e he, Bool.and_comm]
    simp
  refine exists_congr fun a => ?_
  rw [tallyOf, hsame, Cluster.within, List.filter_map, List.length_map]
  rfl

/-! ### Steps -/

/-- What happens in a step of a run: a call, what it found and what it left. -/
structure Happened where
  call : Mutation
  ok : Bool
  before : Db
  after : Db

/-- A step that the review and the outbox count alike: no deletion or deactivation is refused with
an entry, no user is deactivated twice, and no replace takes an active user out of service. -/
structure Happened.Plain (h : Happened) : Prop where
  refused : ∀ a, h.after.auditLog = h.before.auditLog ++ [a] → a.result = .denied →
    isDeactivation a = false
  deactivated : h.ok = true → ∀ t id rec c, h.call = .deactivateUser t id rec →
    h.before.userAt t id = some c → c.active = true
  replaced : h.ok = true → ∀ t id u rec c, h.call = .updateUser t id u rec →
    h.before.userAt t id = some c → c.active = true → u.active = true

variable {pg : Postgres} {s : Store}

def happened (pg : Postgres) (s : Store) (m : Mutation) (supply : Nat → Supply Env DbError)
    (db : Db) : Happened :=
  ⟨m, (m.perform pg s supply db).1.toBool, db, (m.perform pg s supply db).2⟩

/-- Runs of store calls, each step of which meets `P`. -/
inductive RunWith (pg : Postgres) (s : Store) (P : Happened → Prop) : Db → Prop where
  | empty : RunWith pg s P .empty
  | call {db : Db} (m : Mutation) (supply : Nat → Supply Env DbError) : RunWith pg s P db →
      P (happened pg s m supply db) → RunWith pg s P (m.perform pg s supply db).2

theorem records_counted {m : Mutation} {db : Db} {a : AuditRow} (h : m.Records db a)
    (hplain : Happened.Plain ⟨m, true, db, db'⟩) : isDeactivation a = deprovisions a := by
  have hresult : decide (a.result = .success) = true := by simp [h.success]
  have hother : (m.action = .create ∨ ∃ t id g rec, m = .updateGroup t id g rec) →
      deprovisions a = false := by
    intro hm
    obtain ⟨hbefore, hafter⟩ := h.other hm
    obtain ⟨i, hi⟩ := Option.ne_none_iff_exists'.mp hafter
    rw [deprovisions, hi]
    rcases hbefore with hb | ⟨g, hb⟩ <;> rw [hb] <;> simp
  cases m with
  | createUser t u rec =>
    rw [hother (Or.inl rfl), isDeactivation, h.action]
    rfl
  | createGroup t g rec =>
    rw [hother (Or.inl rfl), isDeactivation, h.action]
    rfl
  | updateGroup t id g rec =>
    rw [hother (Or.inr ⟨t, id, g, rec, rfl⟩), isDeactivation, h.action]
    rfl
  | updateUser t id u rec =>
    obtain ⟨c, u', hc, hb, ha, hactive⟩ := h.updated t id u rec rfl
    have hkept : (c.active && !u.active) = false := by
      cases hca : c.active with
      | false => rfl
      | true => simp [hplain.replaced rfl t id u rec c rfl hc hca]
    rw [isDeactivation, h.action, deprovisions, hb, ha]
    simp [hactive, hkept, Mutation.action]
  | deactivateUser t id rec =>
    obtain ⟨c, u', hc, hb, ha, hactive⟩ := h.deactivated t id rec rfl
    have hwas := hplain.deactivated rfl t id rec c rfl hc
    rw [isDeactivation, h.action, deprovisions, hb, ha]
    simp [hactive, hwas, h.success, Mutation.action]
  | deleteGroup t id rec =>
    obtain ⟨g, hb, ha⟩ := h.grouped t id rec rfl
    rw [isDeactivation, h.action, deprovisions, hb, ha]
    simp [h.success, Mutation.action]

/-- In a run of plain steps every entry is counted alike. -/
theorem run_counted {db : Db} (h : RunWith pg s Happened.Plain db) :
    ∀ e ∈ db.auditLog, isDeactivation e = deprovisions e := by
  induction h with
  | empty => exact fun e he => nomatch he
  | @call db m supply _ hplain ih =>
    cases hr : (m.perform pg s supply db).1 with
    | ok u =>
      obtain ⟨a, hlog, hrec⟩ := Store.perform_records hr
      have hstep : Happened.Plain ⟨m, true, db, (m.perform pg s supply db).2⟩ := by
        rw [happened, hr] at hplain
        exact hplain
      intro e he
      rw [hlog, List.mem_append, List.mem_singleton] at he
      rcases he with he | rfl
      · exact ih e he
      · exact records_counted hrec hstep
    | error x =>
      rcases Store.perform_error hr with hdb | hdenied
      · rw [hdb]
        exact ih
      · obtain ⟨a, ha, hlog⟩ := hdenied.auditLog
        intro e he
        rw [hlog, List.mem_append, List.mem_singleton] at he
        rcases he with he | rfl
        · exact ih e he
        · rw [hplain.refused e hlog ha, deprovisions, ha]
          rfl

def always : Location := ⟨fun _ => 1, fun _ => 9⟩

theorem createAnn_plain :
    Happened.Plain (happened Store.plainText ⟨true⟩ Store.createAnn Store.annSupply .empty) where
  refused a ha hdenied := by
    have hall : ((happened Store.plainText ⟨true⟩ Store.createAnn Store.annSupply
        .empty).after.auditLog.all fun a => decide (a.result = .success)) = true := by rfl
    have hmem : a ∈ (happened Store.plainText ⟨true⟩ Store.createAnn Store.annSupply
        .empty).after.auditLog := by
      rw [ha]
      exact List.mem_append_right _ List.mem_cons_self
    have hres := of_decide_eq_true (List.all_eq_true.mp hall a hmem)
    rw [hdenied] at hres
    cases hres
  deactivated _ _ _ _ _ h := by cases h
  replaced _ _ _ _ _ _ h := by cases h

/-- A user taken out of service and back, five times. -/
def switchedOff : List Mutation :=
  let rec' : Store.AuditRecord := ⟨"key", "", "tenant"⟩
  let off := Mutation.updateUser "tenant" Store.someUuid.text
    { Store.newUser "ann" with active := false } rec'
  let on := Mutation.updateUser "tenant" Store.someUuid.text (Store.newUser "ann") rec'
  [.createUser "tenant" (Store.newUser "ann") rec', off, on, off, on, off, on, off, on, off]

def runOf (ms : List Mutation) : Db :=
  ms.foldl (fun db m => (m.perform Store.plainText ⟨true⟩ Store.annSupply db).2) .empty

theorem run_runOf (ms : List Mutation) :
    RunWith Store.plainText ⟨true⟩ (fun _ => True) (runOf ms) := by
  induction ms using List.reverseRecOn with
  | nil => exact .empty
  | append_singleton ms m ih =>
    rw [runOf, List.foldl_append]
    exact .call m Store.annSupply ih trivial

end Scimage.Aria
