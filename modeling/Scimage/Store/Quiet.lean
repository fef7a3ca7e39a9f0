import Scimage.Lib.Quiet
import Scimage.Store.Accepts
import Scimage.Store.Admin

/-! Where the calls of the store lead when the database is up. -/
namespace Scimage.Store

open Txn Engine

abbrev StoreWorld := World Stmt.Rows Db Write Env

/-- The directory is that of `v`; the two logs may be longer. -/
def Logged (v v' : Db) : Prop :=
  ∃ log queue, v' = { v with auditLog := log, deliveries := queue }

/-- One denied entry, and nothing else. -/
def Refused (rec : AuditRecord) (resource : Resource) (action : Action) (db db' : Db) : Prop :=
  ∃ now serial target detail, db' = { db with auditLog := db.auditLog ++
    [auditEntry now serial rec resource action target .denied detail none none] }

/-- The errors that a refused mutation is noted for. -/
def StoreError.IsRefusal : StoreError → Prop
  | .notFound | .duplicateUserName | .groupNotFound | .duplicateGroupName | .invalidMember => True
  | _ => False

/-- A target that an entry can name: none, or a UUID. -/
def Writable (targetID : String) : Prop := targetID = "" ∨ (Uuid.parse targetID).isSome

/-- What a refusal leaves: its entry, when the target can be written down. -/
def Noted (rec : AuditRecord) (resource : Resource) (action : Action) (targetID : String)
    (db db' : Db) : Prop :=
  Writable targetID ∧ Refused rec resource action db db' ∨ ¬ Writable targetID ∧ db' = db

/-- How a mutation fails that would be accepted if `accepts`. -/
structure Fails (supply : Nat → Supply Env DbError) (accepts : Prop) (rec : AuditRecord)
    (resource : Resource) (action : Action) (targetID : String) (db : Db) (e : StoreError)
    (db' : Db) : Prop where
  change : db' = db ∨ Refused rec resource action db db'
  refused : Quiet supply → ¬ accepts
  noted : Quiet supply → e.IsRefusal → Noted rec resource action targetID db db'

theorem Logged.refl (v : Db) : Logged v v := ⟨v.auditLog, v.deliveries, rfl⟩

theorem Logged.trans {v v' v'' : Db} (h : Logged v v') (h' : Logged v' v'') : Logged v v'' := by
  obtain ⟨log, queue, rfl⟩ := h
  obtain ⟨log', queue', rfl⟩ := h'
  exact ⟨log', queue', rfl⟩

section Rules

variable {pg : Postgres} {supply : Nat → Supply Env DbError} {w : StoreWorld} {db v : Db}
  {now : Time} {ok : α → StoreWorld → Prop} {err : StoreError → StoreWorld → Prop}

theorem leads_inTx {body : Call α} (hw : w.Idle db)
    (h : ∀ now w', (engine pg).Open now db db w' → (engine pg).Leads supply body
      (fun a w' => ∀ w'', w''.Idle w'.db → ok a w'') (fun e w' => ∀ w'', w''.Idle w'.db → err e w'') w')
    (herr : ∀ e w', ¬ Quiet supply → w'.Idle db → err (.db e) w') :
    (engine pg).Leads supply (inTx body) ok err w := by
  refine leads_bind.mpr (leads_bind.mpr (leads_begin hw ?_ ?_))
  · intro now w' hopen
    rw [orFail, leads_pure]
    exact leads_rollback (h now w' hopen)
  · intro e w' hq hidle
    rw [orFail, leads_throw]
    exact herr e w' hq hidle

theorem leads_exec {s : Stmt} (hw : (engine pg).Open now db v w)
    {ok : s.Rows → StoreWorld → Prop}
    (hok : ∀ env r ws w', exec pg now env s v v = .ok (r, ws) →
      (engine pg).Open now db ((engine pg).applyAll v ws) w' → ok r w')
    (herr : ∀ e w', (Quiet supply → ∃ env, exec pg now env s v v = .error e) → w'.db = db →
      err (.db e) w') :
    (engine pg).Leads supply (Querier.tx.exec s) ok err w :=
  leads_bind.mpr (leads_tx hw hok herr)

theorem leads_commit_tx (hw : (engine pg).Open now db v w) {ok : Unit → StoreWorld → Prop}
    (hok : ∀ w', w'.Idle v → ok () w') (herr : ∀ e w', ¬ Quiet supply → w'.db = db → err (.db e) w') :
    (engine pg).Leads supply commit ok err w :=
  leads_bind.mpr (leads_commit hw hok herr)

theorem leads_attempt {c : Call β} {ok : Except StoreError β → StoreWorld → Prop} :
    (engine pg).Leads supply (attempt c) ok err w ↔
      (engine pg).Leads supply c (fun b => ok (.ok b)) (fun e => ok (.error e)) w :=
  leads_catch

/-! ### Audit entries and deliveries -/

theorem target_parses {targetID : String} (h : Writable targetID) :
    ∃ target, parseTarget (nullable targetID) = .ok target := by
  rcases h with rfl | h
  · exact ⟨none, rfl⟩
  · obtain ⟨k, hk⟩ := Option.isSome_iff_exists.mp h
    rw [nullable_of_parse hk]
    exact ⟨some k, by simp [parseTarget, parseID, hk, Except.map]⟩

theorem target_refused {targetID : String} (h : ¬ Writable targetID) :
    parseTarget (nullable targetID) = .error invalidText := by
  obtain ⟨hne, hparse⟩ := not_or.mp h
  simp [nullable, hne, parseTarget, parseID, Option.not_isSome_iff_eq_none.mp hparse, Except.map]

theorem leads_auditRefusal {rec : AuditRecord} {resource : Resource} {action : Action}
    {targetID detail : String} {ok : Unit → StoreWorld → Prop} (hw : w.db = db)
    (hok : ∀ w', (w'.db = db ∨ Refused rec resource action db w'.db) →
      (Quiet supply → Noted rec resource action targetID db w'.db) → ok () w') :
    (engine pg).Leads supply (auditRefusal rec resource action targetID detail) ok err w := by
  subst hw
  refine leads_bind.mpr (leads_pool ?_ ?_)
  · intro now env r ws w' hx hdb _
    change execInsertAudit now env rec resource action targetID .denied detail none none = _ at hx
    rw [execInsertAudit] at hx
    by_cases hparse : Writable targetID
    · obtain ⟨target, htarget⟩ := target_parses hparse
      rw [htarget] at hx
      cases hx
      have hnoted : Refused rec resource action w.db w'.db := ⟨now, env.serial, target, detail, hdb⟩
      exact hok w' (Or.inr hnoted) fun _ => Or.inl ⟨hparse, hnoted⟩
    · rw [target_refused hparse] at hx
      cases hx
  · intro e w' hx hdb _
    refine hok w' (Or.inl hdb) fun hq => ?_
    obtain ⟨now, env, hx⟩ := hx hq
    change execInsertAudit now env rec resource action targetID .denied detail none none = _ at hx
    rw [execInsertAudit] at hx
    by_cases hparse : Writable targetID
    · obtain ⟨target, htarget⟩ := target_parses hparse
      rw [htarget] at hx
      cases hx
    · exact Or.inr ⟨hparse, hdb⟩

/-- A refusal, noted or not, and its error. -/
theorem leads_refuse {rec : AuditRecord} {resource : Resource} {action : Action}
    {targetID detail : String} {e : StoreError} {accepts : Prop} (hw : w.db = db)
    (hrefused : Quiet supply → ¬ accepts)
    (herr : ∀ w', Fails supply accepts rec resource action targetID db e w'.db → err e w') :
    (engine pg).Leads supply (do
      auditRefusal rec resource action targetID detail
      throw e : Call α) ok err w := by
  refine leads_bind.mpr (leads_auditRefusal hw ?_)
  intro w' hchange hnoted
  exact herr w' ⟨hchange, hrefused, fun hq _ => hnoted hq⟩

theorem leads_insertAudit {rec : AuditRecord} {resource : Resource} {action : Action} {k : Uuid}
    {targetID detail : String} {result : Outcome} {before after : Option Image}
    {ok : Unit → StoreWorld → Prop} (hw : (engine pg).Open now db v w)
    (hk : Uuid.parse targetID = some k)
    (hok : ∀ v' w', Logged v v' → (engine pg).Open now db v' w' → ok () w')
    (herr : ∀ e w', ¬ Quiet supply → w'.db = db → err (.db e) w') :
    (engine pg).Leads supply
      (insertAudit .tx rec resource action targetID result detail before after) ok err w := by
  obtain ⟨target, htarget⟩ := target_parses (Or.inr (Option.isSome_iff_exists.mpr ⟨k, hk⟩))
  refine leads_exec hw ?_ ?_
  · intro env r ws w' hx hopen
    change execInsertAudit now env rec resource action targetID result detail before after = _ at hx
    rw [execInsertAudit, htarget] at hx
    cases hx
    exact hok _ w' ⟨_, v.deliveries, rfl⟩ hopen
  · intro e w' hx hdb
    refine herr e w' (fun hq => ?_) hdb
    obtain ⟨env, hx⟩ := hx hq
    change execInsertAudit now env rec resource action targetID result detail before after = _ at hx
    rw [execInsertAudit, htarget] at hx
    cases hx

theorem leads_insertDelivery {tenantID targetID : String} {eventType : EventType}
    {payload : Payload} {k : Uuid} {ok : Unit → StoreWorld → Prop}
    (hw : (engine pg).Open now db v w) (hk : Uuid.parse targetID = some k)
    (hok : ∀ v' w', Logged v v' → (engine pg).Open now db v' w' → ok () w')
    (herr : ∀ e w', ¬ Quiet supply → w'.db = db → err (.db e) w') :
    (engine pg).Leads supply
      (Querier.tx.exec (.insertDelivery tenantID eventType targetID payload)) ok err w := by
  refine leads_exec hw ?_ ?_
  · intro env r ws w' hx hopen
    change execInsertDelivery now env tenantID eventType targetID payload = _ at hx
    simp only [execInsertDelivery, parseID, hk] at hx
    cases hx
    exact hok _ w' ⟨v.auditLog, _, rfl⟩ hopen
  · intro e w' hx hdb
    refine herr e w' (fun hq => ?_) hdb
    obtain ⟨env, hx⟩ := hx hq
    change execInsertDelivery now env tenantID eventType targetID payload = _ at hx
    simp only [execInsertDelivery, parseID, hk] at hx
    cases hx

variable {s : Store} {rec : AuditRecord} {tenantID id : String} {action : Action}
  {eventType : EventType} {k : Uuid} {a : α}

/-- The end that the mutations of users share. -/
theorem leads_recorded_user {x : Option User} {after : User}
    (hw : (engine pg).Open now db v w) (hk : Uuid.parse id = some k)
    (hok : ∀ v' w', Logged v v' → w'.Idle v' → ok a w')
    (herr : ∀ e w', ¬ Quiet supply → w'.db = db → err (.db e) w') :
    (engine pg).Leads supply (do
      insertAudit .tx rec .user action id .success "" (x.map .user) (some (.user after))
      s.enqueueChange .tx tenantID eventType id x after
      commit
      return a) ok err w := by
  refine leads_bind.mpr (leads_insertAudit hw hk ?_ herr)
  intro v' w' hlogged hopen
  rw [enqueueChange]
  by_cases hs : s.changeEvents
  · simp only [hs, Bool.not_true, Bool.false_eq_true, if_false]
    refine leads_bind.mpr (leads_insertDelivery hopen hk ?_ herr)
    intro v'' w'' hlogged' hopen'
    exact leads_bind.mpr (leads_commit_tx hopen' (hok _ · (hlogged.trans hlogged')) herr)
  · simp only [hs, Bool.not_false, if_true]
    refine leads_bind.mpr ((leads_pure ()).mpr ?_)
    exact leads_bind.mpr (leads_commit_tx hopen (hok _ · hlogged) herr)

end Rules

/-! ### Users -/

section Users

variable {pg : Postgres} {supply : Nat → Supply Env DbError} {w : StoreWorld} {db : Db} {s : Store}
  {tenantID id : String} {rec : AuditRecord} {u : User}

theorem selectUser_userAt : execSelectUser tenantID id db =
    if (Uuid.parse id).isSome then .ok ((db.userAt tenantID id).map scanUser, [])
    else .error invalidText := by
  rw [execSelectUser, parseID, Db.userAt]
  cases Uuid.parse id <;> rfl

theorem leads_getUser {ok : User → StoreWorld → Prop} {err : StoreError → StoreWorld → Prop}
    (hw : w.Idle db)
    (hok : ∀ r w', db.userAt tenantID id = some r → w'.Idle db → ok (scanUser r) w')
    (herr : ∀ e w', (Quiet supply → e = .notFound ∧ db.userAt tenantID id = none) → w'.Idle db →
      err e w') :
    (engine pg).Leads supply (getUser tenantID id) ok err w := by
  obtain ⟨rfl, htx⟩ := hw
  refine leads_bind.mpr (leads_pool ?_ ?_)
  · intro now env r ws w' hx hdb htx'
    change execSelectUser tenantID id w.db = _ at hx
    rw [selectUser_userAt] at hx
    split_ifs at hx
    cases hx
    have hidle : w'.Idle w.db := ⟨hdb, htx'.trans htx⟩
    cases hfind : w.db.userAt tenantID id with
    | none => exact herr .notFound w' (fun _ => ⟨rfl, hfind⟩) hidle
    | some r => exact hok r w' hfind hidle
  · intro e w' hx hdb htx'
    have hidle : w'.Idle w.db := ⟨hdb, htx'.trans htx⟩
    have hmissing : Quiet supply → isMissingRow e = true ∧ w.db.userAt tenantID id = none := by
      intro hq
      obtain ⟨now, env, hx⟩ := hx hq
      change execSelectUser tenantID id w.db = _ at hx
      rw [selectUser_userAt] at hx
      split_ifs at hx with hparse
      cases hx
      refine ⟨rfl, ?_⟩
      rw [Db.userAt, Option.not_isSome_iff_eq_none.mp hparse]
      rfl
    dsimp only [scanRow]
    by_cases hm : isMissingRow e
    · rw [if_pos hm]
      exact herr _ w' (fun hq => ⟨rfl, (hmissing hq).2⟩) hidle
    · rw [if_neg hm]
      exact herr _ w' (fun hq => (hm (hmissing hq).1).elim) hidle

theorem leads_listAttributes {ok : List AttributeRow → StoreWorld → Prop}
    {err : StoreError → StoreWorld → Prop} (hw : w.Idle db)
    (hok : ∀ w', w'.Idle db → ok (db.attributesOf tenantID) w')
    (herr : ∀ e w', ¬ Quiet supply → w'.Idle db → err e w') :
    (engine pg).Leads supply (listAttributes tenantID) ok err w := by
  obtain ⟨rfl, htx⟩ := hw
  refine leads_bind.mpr (leads_pool ?_ ?_)
  · intro now env r ws w' hx hdb htx'
    cases hx
    exact hok w' ⟨hdb, htx'.trans htx⟩
  · intro e w' hx hdb htx'
    refine herr _ w' (fun hq => ?_) ⟨hdb, htx'.trans htx⟩
    obtain ⟨now, env, hx⟩ := hx hq
    cases hx

theorem leads_createUser {ok : User → StoreWorld → Prop} {err : StoreError → StoreWorld → Prop}
    (hw : w.Idle db)
    (hok : ∀ now env created ws db' w', execInsertUser pg now env tenantID u db = .ok (created, ws) →
      Logged ((engine pg).applyAll db ws) db' → w'.Idle db' → ok created w')
    (herr : ∀ e db' w', Fails supply
      (∀ now env, ∃ created ws, execInsertUser pg now env tenantID u db = .ok (created, ws))
      rec .user .create "" db e db' → w'.Idle db' → err e w') :
    (engine pg).Leads supply (s.createUser tenantID u rec) ok err w := by
  refine leads_inTx hw ?_ ?_
  · intro now w' hopen
    refine leads_bind.mpr (leads_tx hopen ?_ ?_)
    · intro env created ws w'' hx hopen'
      obtain ⟨r, hr, hrest⟩ := insertUser_ok hx
      have hk : Uuid.parse created.id = some r.id := by
        rw [hr, scanUser_id, Uuid.parse_text]
      refine leads_recorded_user (x := none) hopen' hk ?_ ?_
      · intro db' w₁ hlogged hidle w₂ hidle'
        rw [hidle.1] at hidle'
        exact hok now env created ws db' w₂ hx hlogged hidle'
      · intro e w₁ hq hdb w₂ hidle
        refine herr _ _ w₂ ⟨Or.inl hdb, fun h => (hq h).elim, fun h => (hq h).elim⟩ hidle
    · intro e w'' hx hdb
      have hnot : Quiet supply → ¬ ∀ now env, ∃ created ws,
          execInsertUser pg now env tenantID u db = .ok (created, ws) := by
        intro hq hall
        obtain ⟨env, hx⟩ := hx hq
        obtain ⟨created, ws, hok⟩ := hall now env
        change execInsertUser pg now env tenantID u db = _ at hx
        rw [hok] at hx
        cases hx
      dsimp only
      by_cases he : isUniqueViolation e
      · rw [if_pos he]
        refine leads_refuse hdb hnot ?_
        intro w₁ hfails w₂ hidle
        exact herr _ _ w₂ hfails hidle
      · rw [if_neg he]
        intro w₂ hidle
        rw [hdb] at hidle
        refine herr _ _ w₂ ⟨Or.inl rfl, hnot, fun _ h => h.elim⟩ hidle
  · intro e w' hq hidle
    exact herr _ _ w' ⟨Or.inl rfl, fun h => (hq h).elim, fun h => (hq h).elim⟩ hidle

theorem updateUser_parses {now : Time} {snap cur : Db} {x : Option Change × List Write}
    (h : execUpdateUser pg now tenantID id u snap cur = .ok x) : ∃ k, Uuid.parse id = some k := by
  rw [execUpdateUser] at h
  cases hk : parseID id with
  | ok k => exact ⟨k, parse_of_parseID hk⟩
  | error e =>
    rw [hk] at h
    cases h

theorem deactivateUser_parses {now : Time} {snap cur : Db} {x : Option Change × List Write}
    (h : execDeactivateUser pg now tenantID id snap cur = .ok x) : ∃ k, Uuid.parse id = some k := by
  rw [execDeactivateUser] at h
  cases hk : parseID id with
  | ok k => exact ⟨k, parse_of_parseID hk⟩
  | error e =>
    rw [hk] at h
    cases h

theorem leads_updateUser {ok : Change → StoreWorld → Prop} {err : StoreError → StoreWorld → Prop}
    (hw : w.Idle db)
    (hok : ∀ now ch ws db' w', execUpdateUser pg now tenantID id u db db = .ok (some ch, ws) →
      Logged ((engine pg).applyAll db ws) db' → w'.Idle db' → ok ch w')
    (herr : ∀ e db' w', Fails supply
      (∀ now, ∃ ch ws, execUpdateUser pg now tenantID id u db db = .ok (some ch, ws))
      rec .user .replace id db e db' → w'.Idle db' → err e w') :
    (engine pg).Leads supply (s.updateUser tenantID id u rec) ok err w := by
  refine leads_inTx hw ?_ ?_
  · intro now w' hopen
    refine leads_bind.mpr (leads_tx hopen ?_ ?_)
    · intro env found ws w'' hx hopen'
      change execUpdateUser pg now tenantID id u db db = _ at hx
      cases found with
      | none =>
        have hnot : ¬ ∀ now, ∃ ch ws, execUpdateUser pg now tenantID id u db db = .ok (some ch, ws) := by
          intro hall
          obtain ⟨ch, ws', hok⟩ := hall now
          rw [hok] at hx
          cases hx
        refine leads_refuse hopen'.1 (fun _ => hnot) ?_
        intro w₁ hfails w₂ hidle
        exact herr _ _ w₂ hfails hidle
      | some ch =>
        obtain ⟨k, hk⟩ := updateUser_parses hx
        refine leads_recorded_user (x := some ch.before) hopen' hk ?_ ?_
        · intro db' w₁ hlogged hidle w₂ hidle'
          rw [hidle.1] at hidle'
          exact hok now ch ws db' w₂ hx hlogged hidle'
        · intro e w₁ hq hdb w₂ hidle
          exact herr _ _ w₂ ⟨Or.inl hdb, fun h => (hq h).elim, fun h => (hq h).elim⟩ hidle
    · intro e w'' hx hdb
      have hnot : Quiet supply → ¬ ∀ now, ∃ ch ws,
          execUpdateUser pg now tenantID id u db db = .ok (some ch, ws) := by
        intro hq hall
        obtain ⟨env, hx⟩ := hx hq
        obtain ⟨ch, ws, hok⟩ := hall now
        change execUpdateUser pg now tenantID id u db db = _ at hx
        rw [hok] at hx
        cases hx
      dsimp only [scanRow]
      by_cases hm : isMissingRow e
      · rw [if_pos hm]
        refine leads_refuse hdb hnot ?_
        intro w₁ hfails w₂ hidle
        exact herr _ _ w₂ hfails hidle
      · rw [if_neg hm]
        by_cases he : isUniqueViolation e
        · rw [if_pos he]
          refine leads_refuse hdb hnot ?_
          intro w₁ hfails w₂ hidle
          exact herr _ _ w₂ hfails hidle
        · rw [if_neg he]
          intro w₂ hidle
          rw [hdb] at hidle
          exact herr _ _ w₂ ⟨Or.inl rfl, hnot, fun _ h => h.elim⟩ hidle
  · intro e w' hq hidle
    exact herr _ _ w' ⟨Or.inl rfl, fun h => (hq h).elim, fun h => (hq h).elim⟩ hidle

theorem leads_deactivateUser {ok : Change → StoreWorld → Prop}
    {err : StoreError → StoreWorld → Prop} (hw : w.Idle db)
    (hok : ∀ now ch ws db' w', execDeactivateUser pg now tenantID id db db = .ok (some ch, ws) →
      Logged ((engine pg).applyAll db ws) db' → w'.Idle db' → ok ch w')
    (herr : ∀ e db' w', Fails supply
      (∀ now, ∃ ch ws, execDeactivateUser pg now tenantID id db db = .ok (some ch, ws))
      rec .user .deactivate id db e db' → w'.Idle db' → err e w') :
    (engine pg).Leads supply (s.deactivateUser tenantID id rec) ok err w := by
  refine leads_inTx hw ?_ ?_
  · intro now w' hopen
    refine leads_bind.mpr (leads_tx hopen ?_ ?_)
    · intro env found ws w'' hx hopen'
      change execDeactivateUser pg now tenantID id db db = _ at hx
      cases found with
      | none =>
        have hnot : ¬ ∀ now, ∃ ch ws, execDeactivateUser pg now tenantID id db db = .ok (some ch, ws) := by
          intro hall
          obtain ⟨ch, ws', hok⟩ := hall now
          rw [hok] at hx
          cases hx
        refine leads_refuse hopen'.1 (fun _ => hnot) ?_
        intro w₁ hfails w₂ hidle
        exact herr _ _ w₂ hfails hidle
      | some ch =>
        obtain ⟨k, hk⟩ := deactivateUser_parses hx
        refine leads_recorded_user (x := some ch.before) hopen' hk ?_ ?_
        · intro db' w₁ hlogged hidle w₂ hidle'
          rw [hidle.1] at hidle'
          exact hok now ch ws db' w₂ hx hlogged hidle'
        · intro e w₁ hq hdb w₂ hidle
          exact herr _ _ w₂ ⟨Or.inl hdb, fun h => (hq h).elim, fun h => (hq h).elim⟩ hidle
    · intro e w'' hx hdb
      have hnot : Quiet supply → ¬ ∀ now, ∃ ch ws,
          execDeactivateUser pg now tenantID id db db = .ok (some ch, ws) := by
        intro hq hall
        obtain ⟨env, hx⟩ := hx hq
        obtain ⟨ch, ws, hok⟩ := hall now
        change execDeactivateUser pg now tenantID id db db = _ at hx
        rw [hok] at hx
        cases hx
      dsimp only [scanRow]
      by_cases hm : isMissingRow e
      · rw [if_pos hm]
        refine leads_refuse hdb hnot ?_
        intro w₁ hfails w₂ hidle
        exact herr _ _ w₂ hfails hidle
      · rw [if_neg hm]
        intro w₂ hidle
        rw [hdb] at hidle
        exact herr _ _ w₂ ⟨Or.inl rfl, hnot, fun _ h => h.elim⟩ hidle
  · intro e w' hq hidle
    exact herr _ _ w' ⟨Or.inl rfl, fun h => (hq h).elim, fun h => (hq h).elim⟩ hidle

end Users

/-! ### Groups -/

section Groups

variable {pg : Postgres} {supply : Nat → Supply Env DbError} {w : StoreWorld} {db v : Db} {s : Store}
  {tenantID id : String} {rec : AuditRecord} {g : Group} {now : Time}

/-- The members of the group that the text names. -/
def Db.membersAt (db : Db) (id : String) : List String :=
  ((Uuid.parse id).map db.membersOf).getD []

/-- The members of a group are exchanged. -/
def Exchanged (pg : Postgres) (now : Time) (tenantID id : String) (memberIDs : List String)
    (v v' : Db) : Prop :=
  ∃ n ws, execClearMembers id v = .ok (n, ws) ∧
    if (dedupeNonEmpty memberIDs).isEmpty then v' = (engine pg).applyAll v ws
    else ∃ ws', execAddMembers now id tenantID (dedupeNonEmpty memberIDs)
        ((engine pg).applyAll v ws) = .ok ((dedupeNonEmpty memberIDs).length, ws') ∧
      v' = (engine pg).applyAll ((engine pg).applyAll v ws) ws'

theorem selectGroup_groupAt : execSelectGroup tenantID id db =
    if (Uuid.parse id).isSome then .ok ((db.groupAt tenantID id).map scanGroup, [])
    else .error invalidText := by
  rw [execSelectGroup, parseID, Db.groupAt]
  cases Uuid.parse id <;> rfl

theorem groupAt_parses {r : GroupRow} (h : db.groupAt tenantID id = some r) :
    ∃ k, Uuid.parse id = some k := by
  obtain ⟨k, hk, -⟩ := Option.bind_eq_some_iff.mp h
  exact ⟨k, hk⟩

theorem selectMembers_membersAt {k : Uuid} (hk : Uuid.parse id = some k) :
    execSelectMembers id db = .ok (db.membersAt id, []) := by
  simp only [execSelectMembers, Db.membersAt, parseID, hk, Option.map_some, Option.getD_some]

theorem leads_fetchMembers {k : Uuid} {ok : List String → StoreWorld → Prop}
    {err : StoreError → StoreWorld → Prop} (hw : (engine pg).Open now db v w)
    (hk : Uuid.parse id = some k)
    (hok : ∀ w', (engine pg).Open now db v w' → ok (v.membersAt id) w')
    (herr : ∀ e w', ¬ Quiet supply → w'.db = db → err (.db e) w') :
    (engine pg).Leads supply (fetchMembers .tx id) ok err w := by
  refine leads_exec hw ?_ ?_
  · intro env r ws w' hx hopen
    change execSelectMembers id v = _ at hx
    rw [selectMembers_membersAt hk] at hx
    cases hx
    exact hok w' hopen
  · intro e w' hx hdb
    refine herr e w' (fun hq => ?_) hdb
    obtain ⟨env, hx⟩ := hx hq
    change execSelectMembers id v = _ at hx
    rw [selectMembers_membersAt hk] at hx
    cases hx

theorem leads_getGroupTx {ok : Group → StoreWorld → Prop} {err : StoreError → StoreWorld → Prop}
    (hw : (engine pg).Open now db v w)
    (hok : ∀ r w', v.groupAt tenantID id = some r → (engine pg).Open now db v w' →
      ok { scanGroup r with members := v.membersAt id } w')
    (herr : ∀ e w', (Quiet supply → v.groupAt tenantID id = none) →
      (e ≠ .groupNotFound → ¬ e.IsRefusal) → w'.db = db → err e w') :
    (engine pg).Leads supply (getGroupTx tenantID id) ok err w := by
  refine leads_bind.mpr (leads_tx hw ?_ ?_)
  · intro env found ws w' hx hopen
    change execSelectGroup tenantID id v = _ at hx
    rw [selectGroup_groupAt] at hx
    split_ifs at hx
    cases hx
    cases hfind : v.groupAt tenantID id with
    | none => exact herr .groupNotFound w' (fun _ => hfind) (fun h => (h rfl).elim) hopen.1
    | some r =>
      obtain ⟨k, hk⟩ := groupAt_parses hfind
      exact leads_bind.mpr (leads_fetchMembers hopen hk (fun w₁ => hok r w₁ hfind)
        fun e w₁ hq hdb => herr _ w₁ (fun h => (hq h).elim) (fun _ h => h) hdb)
  · intro e w' hx hdb
    have hmissing : Quiet supply → v.groupAt tenantID id = none := by
      intro hq
      obtain ⟨env, hx⟩ := hx hq
      change execSelectGroup tenantID id v = _ at hx
      rw [selectGroup_groupAt] at hx
      split_ifs at hx with hparse
      rw [Db.groupAt, Option.not_isSome_iff_eq_none.mp hparse]
      rfl
    dsimp only [scanRow]
    by_cases hm : isMissingRow e
    · rw [if_pos hm]
      exact herr _ w' hmissing (fun h => (h rfl).elim) hdb
    · rw [if_neg hm]
      exact herr _ w' hmissing (fun _ h => h) hdb

theorem leads_getGroup {ok : Group → StoreWorld → Prop} {err : StoreError → StoreWorld → Prop}
    (hw : w.Idle db)
    (hok : ∀ r w', db.groupAt tenantID id = some r → w'.Idle db →
      ok { scanGroup r with members := db.membersAt id } w')
    (herr : ∀ e w', (Quiet supply → e = .groupNotFound ∧ db.groupAt tenantID id = none) →
      w'.Idle db → err e w') :
    (engine pg).Leads supply (getGroup tenantID id) ok err w := by
  obtain ⟨rfl, htx⟩ := hw
  refine leads_bind.mpr (leads_pool ?_ ?_)
  · intro now env found ws w' hx hdb htx'
    change execSelectGroup tenantID id w.db = _ at hx
    rw [selectGroup_groupAt] at hx
    split_ifs at hx
    cases hx
    have hidle : w'.Idle w.db := ⟨hdb, htx'.trans htx⟩
    cases hfind : w.db.groupAt tenantID id with
    | none => exact herr .groupNotFound w' (fun _ => ⟨rfl, hfind⟩) hidle
    | some r =>
      obtain ⟨k, hk⟩ := groupAt_parses hfind
      refine leads_bind.mpr (leads_bind.mpr (leads_pool ?_ ?_))
      · intro now env r' ws w₁ hx hdb₁ htx₁
        change execSelectMembers id w'.db = _ at hx
        rw [hidle.1, selectMembers_membersAt hk] at hx
        cases hx
        exact hok r w₁ hfind ⟨hdb₁.trans hidle.1, htx₁.trans hidle.2⟩
      · intro e w₁ hx hdb₁ htx₁
        refine herr _ w₁ (fun hq => ?_) ⟨hdb₁.trans hidle.1, htx₁.trans hidle.2⟩
        obtain ⟨now, env, hx⟩ := hx hq
        change execSelectMembers id w'.db = _ at hx
        rw [selectMembers_membersAt hk] at hx
        cases hx
  · intro e w' hx hdb htx'
    have hidle : w'.Idle w.db := ⟨hdb, htx'.trans htx⟩
    have hmissing : Quiet supply → isMissingRow e = true ∧ w.db.groupAt tenantID id = none := by
      intro hq
      obtain ⟨now, env, hx⟩ := hx hq
      change execSelectGroup tenantID id w.db = _ at hx
      rw [selectGroup_groupAt] at hx
      split_ifs at hx with hparse
      cases hx
      refine ⟨rfl, ?_⟩
      rw [Db.groupAt, Option.not_isSome_iff_eq_none.mp hparse]
      rfl
    dsimp only [scanRow]
    by_cases hm : isMissingRow e
    · rw [if_pos hm]
      exact herr _ w' (fun hq => ⟨rfl, (hmissing hq).2⟩) hidle
    · rw [if_neg hm]
      exact herr _ w' (fun hq => (hm (hmissing hq).1).elim) hidle

theorem leads_replaceMembers {ids : List String} {k : Uuid} {ok : Unit → StoreWorld → Prop}
    {err : StoreError → StoreWorld → Prop} (hw : (engine pg).Open now db v w)
    (hk : Uuid.parse id = some k)
    (hok : ∀ v' w', Exchanged pg now tenantID id ids v v' → (engine pg).Open now db v' w' → ok () w')
    (herr : ∀ e w', (Quiet supply → ¬ ∃ v', Exchanged pg now tenantID id ids v v') →
      (e ≠ .invalidMember → ¬ e.IsRefusal) → w'.db = db → err e w') :
    (engine pg).Leads supply (replaceMembers tenantID id ids) ok err w := by
  refine leads_bind.mpr (leads_exec hw ?_ ?_)
  · intro env n ws w' hx hopen
    change execClearMembers id v = _ at hx
    by_cases hd : (dedupeNonEmpty ids).isEmpty
    · simp only [hd, if_true]
      refine hok _ w' ⟨n, ws, hx, ?_⟩ hopen
      rw [if_pos hd]
    · simp only [hd, Bool.false_eq_true, if_false]
      have hiff : ∀ v', Exchanged pg now tenantID id ids v v' → ∃ ws',
          execAddMembers now id tenantID (dedupeNonEmpty ids) ((engine pg).applyAll v ws) =
            .ok ((dedupeNonEmpty ids).length, ws') := by
        rintro v' ⟨n', ws₁, hx', hadd⟩
        rw [hx] at hx'
        cases hx'
        rw [if_neg hd] at hadd
        obtain ⟨ws', hadd, -⟩ := hadd
        exact ⟨ws', hadd⟩
      refine leads_bind.mpr (leads_tx hopen ?_ ?_)
      · intro env m ws' w'' hx' hopen'
        change execAddMembers now id tenantID (dedupeNonEmpty ids) ((engine pg).applyAll v ws) = _ at hx'
        by_cases hm : m = (dedupeNonEmpty ids).length
        · subst hm
          simp only [ne_eq, not_true_eq_false, if_false]
          refine hok _ w'' ⟨n, ws, hx, ?_⟩ hopen'
          rw [if_neg hd]
          exact ⟨ws', hx', rfl⟩
        · simp only [ne_eq, hm, not_false_eq_true, if_true]
          refine herr .invalidMember w'' ?_ (fun h => (h rfl).elim) hopen'.1
          rintro - ⟨v', hex⟩
          obtain ⟨ws₁, hadd⟩ := hiff v' hex
          rw [hadd] at hx'
          cases hx'
          exact hm rfl
      · intro e w'' hx' hdb
        have hnot : Quiet supply → ¬ ∃ v', Exchanged pg now tenantID id ids v v' := by
          rintro hq ⟨v', hex⟩
          obtain ⟨ws₁, hadd⟩ := hiff v' hex
          obtain ⟨env, hx'⟩ := hx' hq
          change execAddMembers now id tenantID (dedupeNonEmpty ids) ((engine pg).applyAll v ws) = _
            at hx'
          rw [hadd] at hx'
          cases hx'
        dsimp only
        by_cases he : isInvalidArrayElement e
        · rw [if_pos he]
          exact herr _ w'' hnot (fun h => (h rfl).elim) hdb
        · rw [if_neg he]
          exact herr _ w'' hnot (fun _ h => h) hdb
  · intro e w' hx hdb
    refine herr _ w' ?_ (fun _ h => h) hdb
    intro hq
    obtain ⟨env, hx⟩ := hx hq
    change execClearMembers id v = _ at hx
    simp only [execClearMembers, parseID, hk] at hx
    cases hx

/-- The end that the mutations of groups share. -/
theorem leads_recorded_group {action : Action} {eventType : EventType} {x y : Option Group}
    {k : Uuid} {a : α} {ok : α → StoreWorld → Prop} {err : StoreError → StoreWorld → Prop}
    (hw : (engine pg).Open now db v w) (hk : Uuid.parse id = some k)
    (hok : ∀ v' w', Logged v v' → w'.Idle v' → ok a w')
    (herr : ∀ e w', ¬ Quiet supply → w'.db = db → err (.db e) w') :
    (engine pg).Leads supply (do
      insertAudit .tx rec .group action id .success "" (x.map .group) (y.map .group)
      s.enqueueGroupChange .tx tenantID eventType id x y
      commit
      return a) ok err w := by
  refine leads_bind.mpr (leads_insertAudit hw hk ?_ herr)
  intro v' w' hlogged hopen
  rw [enqueueGroupChange]
  by_cases hs : s.changeEvents
  · simp only [hs, Bool.not_true, Bool.false_eq_true, if_false]
    refine leads_bind.mpr (leads_bind.mpr (leads_now ?_))
    intro t w₁ hdb htx
    have hopen₁ : (engine pg).Open now db v' w₁ := by
      obtain ⟨hdb', hist, htx', hview⟩ := hopen
      exact ⟨hdb.trans hdb', hist, htx.trans htx', hview⟩
    refine leads_insertDelivery hopen₁ hk ?_ herr
    intro v'' w'' hlogged' hopen'
    exact leads_bind.mpr (leads_commit_tx hopen' (hok _ · (hlogged.trans hlogged')) herr)
  · simp only [hs, Bool.not_false, if_true]
    refine leads_bind.mpr ((leads_pure ()).mpr ?_)
    exact leads_bind.mpr (leads_commit_tx hopen (hok _ · hlogged) herr)

/-- The error of a helper, noted when it is `refusal`. -/
theorem leads_refused {e refusal : StoreError} {resource : Resource} {action : Action}
    {targetID detail : String} {accepts : Prop} {ok : α → StoreWorld → Prop}
    {err : StoreError → StoreWorld → Prop} (hw : w.db = db) (hnot : Quiet supply → ¬ accepts)
    (hother : e ≠ refusal → ¬ e.IsRefusal)
    (herr : ∀ w', Fails supply accepts rec resource action targetID db e w'.db → err e w') :
    (engine pg).Leads supply (do
      if e = refusal then auditRefusal rec resource action targetID detail
      throw e : Call α) ok err w := by
  by_cases he : e = refusal
  · simp only [he, if_true]
    rw [he] at herr
    exact leads_refuse hw hnot herr
  · simp only [he, if_false]
    refine (leads_throw e).mpr (herr w ⟨Or.inl hw, hnot, ?_⟩)
    intro _ href
    exact (hother he href).elim

theorem leads_createGroup {ok : Group → StoreWorld → Prop} {err : StoreError → StoreWorld → Prop}
    (hw : w.Idle db)
    (hok : ∀ now env created ws v db' w',
      execInsertGroup pg now env tenantID g db = .ok (created, ws) →
      Exchanged pg now tenantID created.id g.members ((engine pg).applyAll db ws) v →
      Logged v db' → w'.Idle db' → ok { created with members := v.membersAt created.id } w')
    (herr : ∀ e db' w', Fails supply
      (∀ now env, ∃ created ws v, execInsertGroup pg now env tenantID g db = .ok (created, ws) ∧
        Exchanged pg now tenantID created.id g.members ((engine pg).applyAll db ws) v)
      rec .group .create "" db e db' → w'.Idle db' → err e w') :
    (engine pg).Leads supply (s.createGroup tenantID g rec) ok err w := by
  have hfault : ∀ e (w₁ : StoreWorld), ¬ Quiet supply → w₁.db = db → ∀ w₂ : StoreWorld,
      w₂.Idle w₁.db → err (.db e) w₂ := by
    intro e w₁ hq hdb w₂ hidle
    exact herr _ _ w₂ ⟨Or.inl hdb, fun h => (hq h).elim, fun h => (hq h).elim⟩ hidle
  refine leads_inTx hw ?_ ?_
  · intro now w' hopen
    refine leads_bind.mpr (leads_tx hopen ?_ ?_)
    · intro env created ws w'' hx hopen'
      change execInsertGroup pg now env tenantID g db = _ at hx
      obtain ⟨r, hr, hrest⟩ := insertGroup_ok hx
      have hk : Uuid.parse created.id = some r.id := by
        rw [hr, scanGroup_id, Uuid.parse_text]
      refine leads_bind.mpr (leads_attempt.mpr (leads_replaceMembers hopen' hk ?_ ?_))
      · intro v w₁ hex hopen₁
        refine leads_bind.mpr (leads_fetchMembers hopen₁ hk ?_ hfault)
        intro w₂ hopen₂
        refine leads_recorded_group (x := none) (y := some _) hopen₂ hk ?_ hfault
        intro db' w₃ hlogged hidle w₄ hidle'
        rw [hidle.1] at hidle'
        exact hok now env created ws v db' w₄ hx hex hlogged hidle'
      · intro e w₁ hnot hother hdb
        have hno : Quiet supply → ¬ ∀ now env, ∃ created ws v,
            execInsertGroup pg now env tenantID g db = .ok (created, ws) ∧
              Exchanged pg now tenantID created.id g.members ((engine pg).applyAll db ws) v := by
          intro hq hall
          obtain ⟨created', ws', v, hx', hex⟩ := hall now env
          rw [hx] at hx'
          cases hx'
          exact hnot hq ⟨v, hex⟩
        refine leads_refused hdb hno hother ?_
        intro w₂ hfails w₃ hidle
        exact herr _ _ w₃ hfails hidle
    · intro e w'' hx hdb
      have hno : Quiet supply → ¬ ∀ now env, ∃ created ws v,
          execInsertGroup pg now env tenantID g db = .ok (created, ws) ∧
            Exchanged pg now tenantID created.id g.members ((engine pg).applyAll db ws) v := by
        intro hq hall
        obtain ⟨env, hx⟩ := hx hq
        obtain ⟨created, ws, v, hok, -⟩ := hall now env
        change execInsertGroup pg now env tenantID g db = _ at hx
        rw [hok] at hx
        cases hx
      dsimp only
      by_cases he : isUniqueViolationOn e uniqueGroupNameIndex
      · rw [if_pos he]
        refine leads_refuse hdb hno ?_
        intro w₁ hfails w₂ hidle
        exact herr _ _ w₂ hfails hidle
      · rw [if_neg he]
        intro w₂ hidle
        rw [hdb] at hidle
        exact herr _ _ w₂ ⟨Or.inl rfl, hno, fun _ h => h.elim⟩ hidle
  · intro e w' hq hidle
    exact herr _ _ w' ⟨Or.inl rfl, fun h => (hq h).elim, fun h => (hq h).elim⟩ hidle

theorem updateGroup_none {snap cur : Db} {ws : List Write}
    (h : execUpdateGroup pg now tenantID id g snap cur = .ok (none, ws)) :
    snap.groupAt tenantID id = none ∨ cur.groupAt tenantID id = none := by
  rw [execUpdateGroup] at h
  cases hk : parseID id with
  | error e =>
    rw [hk] at h
    cases h
  | ok k =>
    simp only [hk] at h
    simp only [Db.groupAt, parse_of_parseID hk, Option.bind_some]
    split at h
    · split at h
      · cases h
      · cases h
    · rename_i hnone
      by_contra hboth
      rw [not_or, ← ne_eq, ← ne_eq, Option.ne_none_iff_exists', Option.ne_none_iff_exists'] at hboth
      obtain ⟨⟨a, ha⟩, b, hb⟩ := hboth
      exact hnone a b ha hb

theorem updateGroup_found {snap : Db} {after : Group} {ws : List Write}
    (h : execUpdateGroup pg now tenantID id g snap db = .ok (some after, ws)) :
    db.groupAt tenantID id ≠ none := by
  intro hnone
  cases hk : Uuid.parse id with
  | none =>
    simp only [execUpdateGroup, parseID, hk] at h
    cases h
  | some k =>
    obtain ⟨c, r, -, -, -, hc, -, -⟩ := updateGroup_ok hk h
    rw [Db.groupAt, hk] at hnone
    exact Option.some_ne_none c (hc.symm.trans hnone)

theorem leads_updateGroup {ok : GroupChange → StoreWorld → Prop}
    {err : StoreError → StoreWorld → Prop} (hw : w.Idle db)
    (hok : ∀ now before after ws v db' w',
      execUpdateGroup pg now tenantID id g db db = .ok (some after, ws) →
      Exchanged pg now tenantID id g.members ((engine pg).applyAll db ws) v →
      Logged v db' → w'.Idle db' → ok ⟨before, { after with members := v.membersAt id }⟩ w')
    (herr : ∀ e db' w', Fails supply
      (∀ now, ∃ after ws v, execUpdateGroup pg now tenantID id g db db = .ok (some after, ws) ∧
        Exchanged pg now tenantID id g.members ((engine pg).applyAll db ws) v)
      rec .group .replace id db e db' → w'.Idle db' → err e w') :
    (engine pg).Leads supply (s.updateGroup tenantID id g rec) ok err w := by
  have hfault : ∀ e (w₁ : StoreWorld), ¬ Quiet supply → w₁.db = db → ∀ w₂ : StoreWorld,
      w₂.Idle w₁.db → err (.db e) w₂ := by
    intro e w₁ hq hdb w₂ hidle
    exact herr _ _ w₂ ⟨Or.inl hdb, fun h => (hq h).elim, fun h => (hq h).elim⟩ hidle
  refine leads_inTx hw ?_ ?_
  · intro now w' hopen
    refine leads_bind.mpr (leads_attempt.mpr (leads_getGroupTx hopen ?_ ?_))
    · intro r w'' hfind hopen'
      obtain ⟨k, hk⟩ := groupAt_parses hfind
      refine leads_bind.mpr (leads_tx hopen' ?_ ?_)
      · intro env found ws w₁ hx hopen₁
        change execUpdateGroup pg now tenantID id g db db = _ at hx
        cases found with
        | none =>
          rcases updateGroup_none hx with hnone | hnone <;>
          · rw [hfind] at hnone
            cases hnone
        | some after =>
          refine leads_bind.mpr (leads_attempt.mpr (leads_replaceMembers hopen₁ hk ?_ ?_))
          · intro v w₂ hex hopen₂
            refine leads_bind.mpr (leads_fetchMembers hopen₂ hk ?_ hfault)
            intro w₃ hopen₃
            refine leads_recorded_group (x := some _) (y := some _) hopen₃ hk ?_ hfault
            intro db' w₄ hlogged hidle w₅ hidle'
            rw [hidle.1] at hidle'
            exact hok now _ after ws v db' w₅ hx hex hlogged hidle'
          · intro e w₂ hnot hother hdb
            have hno : Quiet supply → ¬ ∀ now, ∃ after ws v,
                execUpdateGroup pg now tenantID id g db db = .ok (some after, ws) ∧
                  Exchanged pg now tenantID id g.members ((engine pg).applyAll db ws) v := by
              intro hq hall
              obtain ⟨after', ws', v, hx', hex⟩ := hall now
              rw [hx] at hx'
              cases hx'
              exact hnot hq ⟨v, hex⟩
            refine leads_refused hdb hno hother ?_
            intro w₃ hfails w₄ hidle
            exact herr _ _ w₄ hfails hidle
      · intro e w₁ hx hdb
        have hno : Quiet supply → ¬ ∀ now, ∃ after ws v,
            execUpdateGroup pg now tenantID id g db db = .ok (some after, ws) ∧
              Exchanged pg now tenantID id g.members ((engine pg).applyAll db ws) v := by
          intro hq hall
          obtain ⟨env, hx⟩ := hx hq
          obtain ⟨after, ws, v, hok, -⟩ := hall now
          change execUpdateGroup pg now tenantID id g db db = _ at hx
          rw [hok] at hx
          cases hx
        dsimp only [scanRow]
        by_cases he : isUniqueViolationOn e uniqueGroupNameIndex
        · rw [if_pos he]
          refine leads_refuse hdb hno ?_
          intro w₂ hfails w₃ hidle
          exact herr _ _ w₃ hfails hidle
        · rw [if_neg he]
          intro w₂ hidle
          rw [hdb] at hidle
          exact herr _ _ w₂ ⟨Or.inl rfl, hno, fun _ h => h.elim⟩ hidle
    · intro e w'' hnone hother hdb
      have hno : Quiet supply → ¬ ∀ now, ∃ after ws v,
          execUpdateGroup pg now tenantID id g db db = .ok (some after, ws) ∧
            Exchanged pg now tenantID id g.members ((engine pg).applyAll db ws) v := by
        intro hq hall
        obtain ⟨after, ws, v, hok, -⟩ := hall now
        exact updateGroup_found hok (hnone hq)
      refine leads_refused hdb hno hother ?_
      intro w₁ hfails w₂ hidle
      exact herr _ _ w₂ hfails hidle
  · intro e w' hq hidle
    exact herr _ _ w' ⟨Or.inl rfl, fun h => (hq h).elim, fun h => (hq h).elim⟩ hidle

theorem leads_deleteGroup {ok : Group → StoreWorld → Prop} {err : StoreError → StoreWorld → Prop}
    (hw : w.Idle db)
    (hok : ∀ r before n ws db' w', db.groupAt tenantID id = some r →
      execDeleteGroup tenantID id db db = .ok (n, ws) →
      Logged ((engine pg).applyAll db ws) db' → w'.Idle db' → ok before w')
    (herr : ∀ e db' w', Fails supply (db.groupAt tenantID id ≠ none) rec .group .delete id db e db' →
      w'.Idle db' → err e w') :
    (engine pg).Leads supply (s.deleteGroup tenantID id rec) ok err w := by
  have hfault : ∀ e (w₁ : StoreWorld), ¬ Quiet supply → w₁.db = db → ∀ w₂ : StoreWorld,
      w₂.Idle w₁.db → err (.db e) w₂ := by
    intro e w₁ hq hdb w₂ hidle
    exact herr _ _ w₂ ⟨Or.inl hdb, fun h => (hq h).elim, fun h => (hq h).elim⟩ hidle
  refine leads_inTx hw ?_ ?_
  · intro now w' hopen
    refine leads_bind.mpr (leads_attempt.mpr (leads_getGroupTx hopen ?_ ?_))
    · intro r w'' hfind hopen'
      obtain ⟨k, hk⟩ := groupAt_parses hfind
      refine leads_bind.mpr (leads_exec hopen' ?_ ?_)
      · intro env n ws w₁ hx hopen₁
        refine leads_recorded_group (x := some _) (y := none) hopen₁ hk ?_ hfault
        intro db' w₂ hlogged hidle w₃ hidle'
        rw [hidle.1] at hidle'
        exact hok r _ n ws db' w₃ hfind hx hlogged hidle'
      · intro e w₁ hx hdb w₂ hidle
        refine hfault e w₁ (fun hq => ?_) hdb w₂ hidle
        obtain ⟨env, hx⟩ := hx hq
        change execDeleteGroup tenantID id db db = _ at hx
        simp only [execDeleteGroup, parseID, hk] at hx
        split at hx <;> cases hx
    · intro e w'' hnone hother hdb
      have hno : Quiet supply → ¬ (db.groupAt tenantID id ≠ none) := fun hq hne => hne (hnone hq)
      refine leads_refused hdb hno hother ?_
      intro w₁ hfails w₂ hidle
      exact herr _ _ w₂ hfails hidle
  · intro e w' hq hidle
    exact herr _ _ w' ⟨Or.inl rfl, fun h => (hq h).elim, fun h => (hq h).elim⟩ hidle

end Groups

end Scimage.Store
