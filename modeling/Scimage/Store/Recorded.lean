import Scimage.Store.Accepts
import Scimage.Store.Consistency

/-! The audit entries that a call leaves. -/
namespace Scimage.Store

open Txn Engine

/-! ### Statements -/

def Write.audit? : Write → Option AuditRow
  | .addAudit a => some a
  | _ => none

theorem applyAll_auditLog (pg : Postgres) (d : Db) (ws : List Write) :
    ((engine pg).applyAll d ws).auditLog = d.auditLog ++ ws.filterMap Write.audit? := by
  induction ws generalizing d with
  | nil => simp
  | cons w ws ih =>
    rw [Engine.applyAll_cons, ih]
    cases w <;> simp [engine, Write.apply, Write.audit?, List.filterMap_cons]

/-- Only one kind of statement writes into the audit log. -/
theorem exec_audits {pg : Postgres} {now : Time} {env : Env} {stmt : Stmt} {snap cur : Db}
    {rows : stmt.Rows} {ws : List Write} (h : exec pg now env stmt snap cur = .ok (rows, ws))
    {a : AuditRow} (ha : a ∈ ws.filterMap Write.audit?) :
    ∃ rec resource action id result detail before after target,
      stmt = .insertAudit rec resource action id result detail before after ∧
        a = auditEntry now env.serial rec resource action target result detail before after := by
  have hnone : ws.filterMap Write.audit? = [] → False := by
    intro hnil
    rw [hnil] at ha
    cases ha
  cases stmt with
  | insertAudit rec resource action id result detail before after =>
    simp only [exec, execInsertAudit] at h
    split at h
    · cases h
    · rename_i target _
      cases h
      rw [List.filterMap_cons_some (rfl : Write.audit? _ = _), List.filterMap_nil,
        List.mem_singleton] at ha
      exact ⟨rec, resource, action, id, result, detail, before, after, target, rfl, ha⟩
  | clearMembers id =>
    simp only [exec, execClearMembers] at h
    split at h
    · cases h
    · cases h
      refine (hnone ?_).elim
      simp [List.filterMap_map, Function.comp_def, Write.audit?]
  | addMembers id tenantID ids =>
    simp only [exec, execAddMembers] at h
    repeat' split at h
    all_goals cases h
    refine (hnone ?_).elim
    simp [List.filterMap_map, Function.comp_def, Write.audit?]
  | _ =>
    refine (hnone ?_).elim
    simp only [exec, execInsertUser, execSelectUser, execUpdateUser, execDeactivateUser, execChangeUser,
      execInsertGroup, execSelectGroup, execSelectMembers, execSelectMembersOf, execUpdateGroup,
      execDeleteGroup, execInsertDelivery, execReplayDelivery, execInsertToken, execTouchToken,
      execRevokeToken, execInsertConsoleToken, execRevokeConsoleToken, execInsertAttribute,
      execDeleteAttribute, execInsertAdminAudit] at h
    repeat' split at h
    all_goals cases h
    all_goals rfl

/-! ### Calls -/

def Mutation.action : Mutation → Action
  | .createUser .. | .createGroup .. => .create
  | .updateUser .. | .updateGroup .. => .replace
  | .deactivateUser .. => .deactivate
  | .deleteGroup .. => .delete

/-- The entry that a call leaves when it succeeds. -/
structure Mutation.Records (m : Mutation) (db : Db) (a : AuditRow) : Prop where
  success : a.result = .success
  action : a.action = m.action
  actor : a.actorToken = m.caller.actorToken
  updated : ∀ t id u rec, m = .updateUser t id u rec → ∃ c u', db.userAt t id = some c ∧
    a.before = some (.user (scanUser c)) ∧ a.after = some (.user u') ∧ u'.active = u.active
  deactivated : ∀ t id rec, m = .deactivateUser t id rec → ∃ c u', db.userAt t id = some c ∧
    a.before = some (.user (scanUser c)) ∧ a.after = some (.user u') ∧ u'.active = false
  grouped : ∀ t id rec, m = .deleteGroup t id rec → ∃ g, a.before = some (.group g) ∧ a.after = none
  other : m.action = .create ∨ (∃ t id g rec, m = .updateGroup t id g rec) →
    (a.before = none ∨ ∃ g, a.before = some (.group g)) ∧ a.after ≠ none

variable {pg : Postgres} {s : Store} {m : Mutation} {supply : Nat → Supply Env DbError} {db : Db}

theorem perform_history (h : (m.perform pg s supply db).1 = .ok ()) : ∃ now hist,
    m.History s (hist.map Record.entry) ∧ Alone (engine pg) db now hist ∧
      (m.perform pg s supply db).2 = (engine pg).view db hist := by
  obtain ⟨st, hmatch, hsettled⟩ := perform_settled pg s m supply db
  rw [h] at hsettled
  obtain ⟨es, rfl⟩ := hsettled
  obtain ⟨hcommit, now, hist, rfl, halone, hdb⟩ := hmatch
  exact ⟨now, hist, hcommit, halone, hdb⟩

theorem sound_audits {now : Time} {before hist : History} {a : AuditRow}
    (hs : (engine pg).Sound db anyStep [] now before hist)
    (ha : a ∈ (writesOf hist).filterMap Write.audit?) :
    ∃ rec resource action id result detail b c, ⟨.insertAudit rec resource action id result detail b c, ()⟩ ∈
        hist.map Record.entry ∧ a.result = result ∧ a.action = action ∧ a.actorToken = rec.actorToken ∧
        a.before = b ∧ a.after = c := by
  induction hist generalizing before with
  | nil => cases ha
  | cons r hist ih =>
    rw [writesOf_cons, List.filterMap_append, List.mem_append] at ha
    rcases ha with ha | ha
    · obtain ⟨rec, resource, action, id, result, detail, b, c, target, hstmt, rfl⟩ :=
        exec_audits hs.1.ran ha
      refine ⟨rec, resource, action, id, result, detail, b, c, ?_, rfl, rfl, rfl, rfl, rfl⟩
      obtain ⟨stmt, rows, ws, env, snap, pos⟩ := r
      dsimp only at hstmt
      subst hstmt
      exact List.mem_cons_self
    · obtain ⟨rec, resource, action, id, result, detail, b, c, hmem, hrest⟩ := ih hs.2 ha
      exact ⟨rec, resource, action, id, result, detail, b, c, List.mem_cons_of_mem _ hmem, hrest⟩

/-- A statement that is the first of its transaction reads what was committed. -/
theorem first_ran {now : Time} {r : Record Stmt.Rows Write Env} {hist : History}
    (hs : (engine pg).Sound db anyStep [] now [] (r :: hist)) :
    exec pg now r.env r.stmt db db = .ok (r.rows, r.writes) := by
  have hran := hs.1.ran
  simp only [Engine.dbAt_nil, Engine.view_nil] at hran
  exact hran

theorem execDeactivateUser_change {now : Time} {tenantID id : String} {ch : Change} {ws : List Write}
    (h : execDeactivateUser pg now tenantID id db db = .ok (some ch, ws)) :
    ∃ c, db.userAt tenantID id = some c ∧ ch = ⟨scanUser c, scanUser (deactivated now c)⟩ := by
  unfold execDeactivateUser at h
  split at h
  · cases h
  · rename_i k hk
    obtain ⟨b, c, hb, hc, rfl, -⟩ := changeUser_ok h
    rw [hb] at hc
    cases hc
    refine ⟨b, ?_, rfl⟩
    rw [Db.userAt, parse_of_parseID hk]
    exact hb

theorem recorded_audit {rec rec' : AuditRecord} {tenantID id id' detail : String}
    {resource resource' : Resource} {action action' : Action} {result : Outcome}
    {before after b c : Option Image} {eventType : EventType} {payload : Payload}
    (h : ⟨.insertAudit rec' resource' action' id' result detail b c, ()⟩ ∈
      s.recorded rec tenantID resource action id before after eventType payload) :
    rec' = rec ∧ action' = action ∧ result = .success ∧ b = before ∧ c = after := by
  rw [recorded, List.mem_cons] at h
  rcases h with h | h
  · cases h
    exact ⟨rfl, rfl, rfl, rfl, rfl⟩
  · rw [queued] at h
    split at h
    · cases List.mem_singleton.mp h
    · cases h

theorem replaced_audit {rec' : AuditRecord} {tenantID id id' detail : String} {n : Nat}
    {resource' : Resource} {action' : Action} {result : Outcome} {b c : Option Image}
    {ids : List String} : ⟨.insertAudit rec' resource' action' id' result detail b c, ()⟩ ∉
      replacedHistory tenantID id ids n := by
  rw [replacedHistory]
  split <;> simp

theorem perform_records (h : (m.perform pg s supply db).1 = .ok ()) :
    ∃ a, (m.perform pg s supply db).2.auditLog = db.auditLog ++ [a] ∧ m.Records db a := by
  obtain ⟨now, hist, hm, halone, hdb⟩ := perform_history h
  obtain ⟨_, _, _, _, a, _, hf, hdb'⟩ := perform_ok h
  have hlog := (hf.logs db).1
  rw [← hdb'] at hlog
  refine ⟨a, hlog, ?_⟩
  have hmem : a ∈ (writesOf hist).filterMap Write.audit? := by
    rw [hdb, Engine.view, applyAll_auditLog, List.append_cancel_left_eq] at hlog
    rw [hlog]
    exact List.mem_singleton.mpr rfl
  obtain ⟨rec, resource, action, id, result, detail, b, c, hin, hres, hact, hactor, hb, hc⟩ :=
    sound_audits halone hmem
  generalize hes : hist.map Record.entry = es at hm hin
  cases hm with
  | createUser created =>
    obtain ⟨rfl, rfl, rfl, rfl, rfl⟩ := recorded_audit ((List.mem_cons.mp hin).resolve_left (by simp))
    refine ⟨hres, hact, by rw [hactor]; rfl, ?_, ?_, ?_, fun _ => ⟨Or.inl hb, by simp [hc]⟩⟩
    all_goals
      intros
      contradiction
  | updateUser ch =>
    obtain ⟨rfl, rfl, rfl, rfl, rfl⟩ := recorded_audit ((List.mem_cons.mp hin).resolve_left (by simp))
    obtain ⟨ws, env, snap, pos, rest, rfl, -⟩ := map_entry_eq_cons.mp hes
    obtain ⟨c, ext, hfind, -, -, rfl, -⟩ := execUpdateUser_ok.mp (first_ran halone)
    refine ⟨hres, hact, by rw [hactor]; rfl, ?_, by intros; contradiction, by intros; contradiction, ?_⟩
    · rintro _ _ _ _ ⟨⟩
      exact ⟨c, _, hfind, hb, hc, rfl⟩
    · rintro (hcreate | ⟨t, id, g, rec, hm⟩)
      · cases hcreate
      · cases hm
  | deactivateUser ch =>
    obtain ⟨rfl, rfl, rfl, rfl, rfl⟩ := recorded_audit ((List.mem_cons.mp hin).resolve_left (by simp))
    obtain ⟨ws, env, snap, pos, rest, rfl, -⟩ := map_entry_eq_cons.mp hes
    obtain ⟨c, hfind, rfl⟩ := execDeactivateUser_change (first_ran halone)
    refine ⟨hres, hact, by rw [hactor]; rfl, by intros; contradiction, ?_, by intros; contradiction, ?_⟩
    · rintro _ _ _ ⟨⟩
      exact ⟨c, _, hfind, hb, hc, rfl⟩
    · rintro (hcreate | ⟨t, id, g, rec, hm⟩)
      · cases hcreate
      · cases hm
  | createGroup created n members =>
    simp only [createGroupHistory, List.mem_append] at hin
    have hlast := hin.resolve_left fun hfront =>
      absurd (hfront.resolve_left fun hfront => hfront.elim (by simp) replaced_audit) (by simp)
    obtain ⟨rfl, rfl, rfl, rfl, rfl⟩ := recorded_audit hlast
    refine ⟨hres, hact, by rw [hactor]; rfl, ?_, ?_, ?_, fun _ => ⟨Or.inl hb, by simp [hc]⟩⟩
    all_goals
      intros
      contradiction
  | updateGroup before members after n newMembers =>
    simp only [updateGroupHistory, List.mem_append] at hin
    have hlast := hin.resolve_left fun hfront =>
      absurd (hfront.resolve_left fun hfront => hfront.elim (by simp) replaced_audit) (by simp)
    obtain ⟨rfl, rfl, rfl, rfl, rfl⟩ := recorded_audit hlast
    refine ⟨hres, hact, by rw [hactor]; rfl, ?_, ?_, ?_, fun _ => ⟨Or.inr ⟨_, hb⟩, by simp [hc]⟩⟩
    all_goals
      intros
      contradiction
  | deleteGroup before members n clock =>
    rw [deleteGroupHistory, List.mem_append] at hin
    obtain ⟨rfl, rfl, rfl, rfl, rfl⟩ := recorded_audit (hin.resolve_left (by simp))
    refine ⟨hres, hact, by rw [hactor]; rfl, by intros; contradiction, by intros; contradiction,
      fun _ _ _ _ => ⟨_, hb, hc⟩, ?_⟩
    rintro (hcreate | ⟨t, id, g, rec, hm⟩)
    · cases hcreate
    · cases hm

end Scimage.Store
