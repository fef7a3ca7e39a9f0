import Scimage.Store.Consistency
import Scimage.Store.Quiet

/-! What a call says is not there, and what is not there. -/
namespace Scimage.Store

open Txn Engine

/-- A failure of the connection is none of the errors that stand for a missing row. -/
def Faithful (supply : Nat → Supply Env DbError) : Prop := ∀ e, Faults supply e → isMissingRow e = false

/-- What a call made alone over the database returns. -/
def returned (pg : Postgres) (supply : Nat → Supply Env DbError) (c : Call α) (db : Db) :
    Except StoreError α :=
  ((engine pg).run supply c.run (World.start db)).1

/-- The errors other than that there is no such row. -/
def Otherwise (e : StoreError) : Prop := e ≠ .notFound ∧ e ≠ .groupNotFound

variable {pg : Postgres} {supply : Nat → Supply Env DbError} {db : Db} {tenantID id : String} {w : StoreWorld}
  {s : Store} {u : User} {g : Group} {rec : AuditRecord} {q : Querier}

theorem returned_of_leads {c : Call α} {P : StoreError → Prop}
    (h : (engine pg).Leads supply c (fun _ _ => True) (fun e _ => P e) (World.start db)) {e : StoreError}
    (he : returned pg supply c db = .error e) : P e := by
  unfold Leads at h
  unfold returned at he
  revert h he
  rcases (engine pg).run supply c.run (World.start db) with ⟨e' | a, w⟩
  · intro h he
    cases he
    exact h
  · intro _ he
    cases he

theorem returned_error {c : Call α} {e : StoreError}
    (h : (engine pg).Leads supply c (fun _ _ => False) (fun e' _ => e' = e) (World.start db)) :
    returned pg supply c db = .error e := by
  unfold Leads at h
  unfold returned
  revert h
  rcases (engine pg).run supply c.run (World.start db) with ⟨e' | a, w⟩
  · exact fun h => congrArg Except.error h
  · exact fun h => h.elim

/-! ### The steps that never say so -/

theorem otherwise_db (e : DbError) : Otherwise (.db e) := by simp [Otherwise]

theorem only_orFail (x : Except DbError α) : (engine pg).Only supply Otherwise (orFail x) := by
  cases x with
  | ok a => exact only_pure a
  | error e => exact only_throw (otherwise_db e)

theorem only_ask_stmt (q : Querier) (st : Stmt) : (engine pg).Only supply Otherwise (q.ask st) := by
  cases q <;> exact only_ask _

theorem only_exec (q : Querier) (st : Stmt) : (engine pg).Only supply Otherwise (q.exec st) :=
  (only_ask_stmt q st).bind only_orFail

theorem only_commit : (engine pg).Only supply Otherwise commit := (only_ask _).bind only_orFail

theorem only_enqueueChange {tenantID id : String} {t : EventType} {x : Option User} {y : User} :
    (engine pg).Only supply Otherwise (s.enqueueChange q tenantID t id x y) := by
  unfold enqueueChange
  split_ifs
  · exact only_pure _
  · exact only_exec q _

theorem only_enqueueGroupChange {tenantID id : String} {t : EventType} {x y : Option Group} :
    (engine pg).Only supply Otherwise (s.enqueueGroupChange q tenantID t id x y) := by
  unfold enqueueGroupChange
  split_ifs
  · exact only_pure _
  · exact (only_ask _).bind fun _ => only_exec q _

theorem only_replaceMembers {ids : List String} :
    (engine pg).Only supply Otherwise (replaceMembers tenantID id ids) := by
  refine (only_exec .tx _).bind fun _ => ?_
  dsimp only
  split_ifs
  · exact only_pure _
  · refine (only_ask_stmt .tx _).bind fun x => ?_
    cases x with
    | error e =>
      dsimp only
      split_ifs
      · exact only_throw (by simp [Otherwise])
      · exact only_throw (otherwise_db e)
    | ok n =>
      dsimp only
      split_ifs
      · exact only_throw (by simp [Otherwise])
      · exact only_pure _

/-- A call in a transaction; the database itself does not say it either. -/
theorem leads_inTx_saying {body : Call α} {P : StoreError → Prop} (hw : w.Idle db) (hdb : ∀ e, P (.db e))
    (h : ∀ now w', (engine pg).Open now db db w' →
      (engine pg).Leads supply body (fun _ _ => True) (fun e _ => P e) w') :
    (engine pg).Leads supply (inTx body) (fun _ _ => True) (fun e _ => P e) w := by
  refine leads_inTx hw ?_ fun e _ _ _ => hdb e
  intro now w' hopen
  exact (h now w' hopen).mono (fun _ _ _ _ _ => trivial) fun _ _ h _ _ => h

theorem leads_only {c : Call α} {P : StoreError → Prop} (hc : (engine pg).Only supply Otherwise c)
    (hP : ∀ e, Otherwise e → P e) (w : StoreWorld) :
    (engine pg).Leads supply c (fun _ _ => True) (fun e _ => P e) w :=
  (hc w).mono (fun _ _ h => h) fun e _ h => hP e h

theorem leads_note {P : StoreError → Prop} {resource : Resource} {action : Action} {target detail : String}
    {e : StoreError} (he : P e) (w : StoreWorld) :
    (engine pg).Leads supply (do
      auditRefusal rec resource action target detail
      throw e : Call α) (fun _ _ => True) (fun e _ => P e) w :=
  leads_bind.mpr (leads_bind.mpr (leads_ask_fault he fun _ _ => he))

/-! ### Statements -/

/-- The statement changes no row, or fails as if there was none. -/
def NoRow (x : Effects (Option β)) : Prop :=
  (∃ ws, x = .ok (none, ws)) ∨ ∃ e, x = .error e ∧ isMissingRow e = true

theorem changeUser_noRow {k : Uuid} {set : UserRow → UserRow}
    (h : NoRow (execChangeUser pg tenantID k set db db)) : db.userOf tenantID k = none := by
  by_contra hsome
  obtain ⟨c, hc⟩ := Option.ne_none_iff_exists'.mp hsome
  unfold NoRow execChangeUser at h
  simp only [hc] at h
  cases hconflict : userConflict pg db (set c) with
  | none =>
    rw [hconflict] at h
    rcases h with ⟨ws, h⟩ | ⟨e, h, -⟩
    · cases h
    · cases h
  | some i =>
    rw [hconflict] at h
    rcases h with ⟨ws, h⟩ | ⟨e, h, hm⟩
    · cases h
    · cases h
      cases hm

theorem deactivateUser_noRow {now : Time} (h : NoRow (execDeactivateUser pg now tenantID id db db)) :
    db.userAt tenantID id = none := by
  unfold execDeactivateUser parseID at h
  rw [Db.userAt]
  cases hk : Uuid.parse id with
  | none => rfl
  | some k =>
    rw [hk] at h
    exact changeUser_noRow h

theorem updateUser_noRow {now : Time} (h : NoRow (execUpdateUser pg now tenantID id u db db)) :
    db.userAt tenantID id = none ∨ ∀ x, jsonbParam pg u.extendedAttributes ≠ .ok x := by
  unfold execUpdateUser parseID at h
  rw [Db.userAt]
  cases hk : Uuid.parse id with
  | none => exact Or.inl rfl
  | some k =>
    rw [hk] at h
    cases hext : jsonbParam pg u.extendedAttributes with
    | ok x =>
      rw [hext] at h
      exact Or.inl (changeUser_noRow h)
    | error e =>
      refine Or.inr fun x hx => ?_
      cases hx

theorem selectUser_noRow (h : NoRow (execSelectUser tenantID id db)) : db.userAt tenantID id = none := by
  rw [selectUser_userAt] at h
  split_ifs at h with hparse
  · rcases h with ⟨ws, h⟩ | ⟨e, h, -⟩
    · cases hu : db.userAt tenantID id with
      | none => rfl
      | some c =>
        rw [hu] at h
        cases h
    · cases h
  · rw [Db.userAt, Option.not_isSome_iff_eq_none.mp hparse]
    rfl

theorem selectGroup_noRow (h : NoRow (execSelectGroup tenantID id db)) : db.groupAt tenantID id = none := by
  rw [selectGroup_groupAt] at h
  split_ifs at h with hparse
  · rcases h with ⟨ws, h⟩ | ⟨e, h, -⟩
    · cases hg : db.groupAt tenantID id with
      | none => rfl
      | some c =>
        rw [hg] at h
        cases h
    · cases h
  · rw [Db.groupAt, Option.not_isSome_iff_eq_none.mp hparse]
    rfl

/-! ### The calls -/

theorem leads_getUser_saying (hs : Faithful supply) (hw : w.Idle db) :
    (engine pg).Leads supply (getUser tenantID id) (fun _ _ => True)
      (fun e _ => e = .notFound → db.userAt tenantID id = none) w := by
  refine leads_bind.mpr (leads_pool_fault ?_ ?_)
  · intro now env found ws w' hx
    rw [hw.1] at hx
    change execSelectUser tenantID id db = _ at hx
    cases found with
    | none => exact fun _ => selectUser_noRow (Or.inl ⟨ws, hx⟩)
    | some u => trivial
  · intro e w' hx
    rw [hw.1] at hx
    dsimp only [scanRow]
    by_cases hm : isMissingRow e = true
    · rw [if_pos hm]
      intro _
      rcases hx with hx | ⟨now, env, hx⟩
      · rw [hs e hx] at hm
        cases hm
      · exact selectUser_noRow (Or.inr ⟨e, hx, hm⟩)
    · rw [if_neg hm]
      exact fun h => (nomatch h)

theorem leads_deactivateUser_saying (hs : Faithful supply) (hw : w.Idle db) :
    (engine pg).Leads supply (s.deactivateUser tenantID id rec) (fun _ _ => True)
      (fun e _ => e = .notFound → db.userAt tenantID id = none) w := by
  refine leads_inTx_saying hw (fun e h => (nomatch h)) fun now w' hopen => ?_
  refine leads_bind.mpr (leads_tx_fault hopen ?_ ?_)
  · intro env found ws w'' hx
    change execDeactivateUser pg now tenantID id db db = _ at hx
    cases found with
    | none => exact leads_note (fun _ => deactivateUser_noRow (Or.inl ⟨ws, hx⟩)) w''
    | some ch =>
      refine leads_only ?_ (fun e he h => (he.1 h).elim) w''
      exact (only_exec .tx _).bind fun _ => only_enqueueChange.bind fun _ => only_commit.bind fun _ =>
        only_pure _
  · intro e w'' hx
    dsimp only [scanRow]
    by_cases hm : isMissingRow e = true
    · rw [if_pos hm]
      refine leads_note (fun _ => ?_) w''
      rcases hx with hx | ⟨env, hx⟩
      · rw [hs e hx] at hm
        cases hm
      · exact deactivateUser_noRow (Or.inr ⟨e, hx, hm⟩)
    · rw [if_neg hm]
      exact fun h => (nomatch h)

/-- The blob that cannot be read is the one other reason. -/
theorem leads_updateUser_saying (hs : Faithful supply) (hw : w.Idle db) :
    (engine pg).Leads supply (s.updateUser tenantID id u rec) (fun _ _ => True)
      (fun e _ => e = .notFound → db.userAt tenantID id = none ∨
        ∀ x, jsonbParam pg u.extendedAttributes ≠ .ok x) w := by
  refine leads_inTx_saying hw (fun e h => (nomatch h)) fun now w' hopen => ?_
  refine leads_bind.mpr (leads_tx_fault hopen ?_ ?_)
  · intro env found ws w'' hx
    change execUpdateUser pg now tenantID id u db db = _ at hx
    cases found with
    | none => exact leads_note (fun _ => updateUser_noRow (Or.inl ⟨ws, hx⟩)) w''
    | some ch =>
      refine leads_only ?_ (fun e he h => (he.1 h).elim) w''
      exact (only_exec .tx _).bind fun _ => only_enqueueChange.bind fun _ => only_commit.bind fun _ =>
        only_pure _
  · intro e w'' hx
    dsimp only [scanRow]
    by_cases hm : isMissingRow e = true
    · rw [if_pos hm]
      refine leads_note (fun _ => ?_) w''
      rcases hx with hx | ⟨env, hx⟩
      · rw [hs e hx] at hm
        cases hm
      · exact updateUser_noRow (Or.inr ⟨e, hx, hm⟩)
    · rw [if_neg hm]
      by_cases hunique : isUniqueViolation e = true
      · rw [if_pos hunique]
        exact leads_note (fun h => (nomatch h)) w''
      · rw [if_neg hunique]
        exact fun h => (nomatch h)

theorem only_fetchMembers : (engine pg).Only supply Otherwise (fetchMembers q id) := only_exec q _

theorem leads_getGroup_saying (hs : Faithful supply) (hw : w.Idle db) :
    (engine pg).Leads supply (getGroup tenantID id) (fun _ _ => True)
      (fun e _ => e = .groupNotFound → db.groupAt tenantID id = none) w := by
  refine leads_bind.mpr (leads_pool_fault ?_ ?_)
  · intro now env found ws w' hx
    rw [hw.1] at hx
    change execSelectGroup tenantID id db = _ at hx
    cases found with
    | none => exact fun _ => selectGroup_noRow (Or.inl ⟨ws, hx⟩)
    | some g => exact leads_only (only_fetchMembers.bind fun _ => only_pure _) (fun e he h => (he.2 h).elim) w'
  · intro e w' hx
    rw [hw.1] at hx
    dsimp only [scanRow]
    by_cases hm : isMissingRow e = true
    · rw [if_pos hm]
      intro _
      rcases hx with hx | ⟨now, env, hx⟩
      · rw [hs e hx] at hm
        cases hm
      · exact selectGroup_noRow (Or.inr ⟨e, hx, hm⟩)
    · rw [if_neg hm]
      exact fun h => (nomatch h)

/-- Within a transaction that sees the directory as it is. -/
theorem leads_getGroupTx_saying {now : Time} (hs : Faithful supply) (hopen : (engine pg).Open now db db w) :
    (engine pg).Leads supply (getGroupTx tenantID id) (fun _ _ => True)
      (fun e _ => e = .groupNotFound → db.groupAt tenantID id = none) w := by
  refine leads_bind.mpr (leads_tx_fault hopen ?_ ?_)
  · intro env found ws w' hx
    change execSelectGroup tenantID id db = _ at hx
    cases found with
    | none => exact fun _ => selectGroup_noRow (Or.inl ⟨ws, hx⟩)
    | some g => exact leads_only (only_fetchMembers.bind fun _ => only_pure _) (fun e he h => (he.2 h).elim) w'
  · intro e w' hx
    dsimp only [scanRow]
    by_cases hm : isMissingRow e = true
    · rw [if_pos hm]
      intro _
      rcases hx with hx | ⟨env, hx⟩
      · rw [hs e hx] at hm
        cases hm
      · exact selectGroup_noRow (Or.inr ⟨e, hx, hm⟩)
    · rw [if_neg hm]
      exact fun h => (nomatch h)

/-- A helper's error, noted or not, is handed on. -/
theorem leads_handOn {P : StoreError → Prop} {resource : Resource} {action : Action} {target detail : String}
    {e refusal : StoreError} (he : P e) (w : StoreWorld) :
    (engine pg).Leads supply (do
      if e = refusal then auditRefusal rec resource action target detail
      throw e : Call α) (fun _ _ => True) (fun e _ => P e) w := by
  by_cases h : e = refusal
  · simp only [h, if_true]
    exact leads_note (h ▸ he) w
  · simp only [h, if_false]
    exact he

theorem leads_deleteGroup_saying (hs : Faithful supply) (hw : w.Idle db) :
    (engine pg).Leads supply (s.deleteGroup tenantID id rec) (fun _ _ => True)
      (fun e _ => e = .groupNotFound → db.groupAt tenantID id = none) w := by
  refine leads_inTx_saying hw (fun e h => (nomatch h)) fun now w' hopen => ?_
  refine leads_bind.mpr (leads_attempt.mpr ((leads_getGroupTx_saying hs hopen).mono ?_ ?_))
  · intro before w'' _
    refine leads_only ?_ (fun e he h => (he.2 h).elim) w''
    exact (only_exec .tx _).bind fun _ => (only_exec .tx _).bind fun _ => only_enqueueGroupChange.bind fun _ =>
      only_commit.bind fun _ => only_pure _
  · intro e w'' he
    exact leads_handOn he w''

theorem only_updateGroup_rest {before : Group} :
    (engine pg).Only supply Otherwise (do
      match scanRow (← Querier.tx.ask (.updateGroup tenantID id g)) with
      | .error e =>
        if isUniqueViolationOn e uniqueGroupNameIndex then
          auditRefusal rec .group .replace id "duplicate displayName"
          throw .duplicateGroupName
        else throw (.db e)
      | .ok after =>
        match ← attempt (replaceMembers tenantID id g.members) with
        | .error e =>
          if e = .invalidMember then
            auditRefusal rec .group .replace id "invalid member reference"
          throw e
        | .ok () =>
          let members ← fetchMembers .tx id
          let after := { after with members }
          insertAudit .tx rec .group .replace id .success "" (some (.group before))
            (some (.group after))
          s.enqueueGroupChange .tx tenantID .groupReplaced id (some before) (some after)
          commit
          return ⟨before, after⟩ : Call GroupChange) := by
  refine (only_ask_stmt .tx _).bind fun x => ?_
  cases scanRow x with
  | error e =>
    dsimp only
    split_ifs
    · exact fun w => leads_note (by simp [Otherwise]) w
    · exact only_throw (otherwise_db e)
  | ok after =>
    intro w
    refine leads_bind.mpr (leads_attempt.mpr ((only_replaceMembers w).mono ?_ ?_))
    · intro _ w' _
      refine leads_only ?_ (fun e he => he) w'
      exact only_fetchMembers.bind fun _ => (only_exec .tx _).bind fun _ =>
        only_enqueueGroupChange.bind fun _ => only_commit.bind fun _ => only_pure _
    · intro e w' he
      exact leads_handOn he w'

theorem leads_updateGroup_saying (hs : Faithful supply) (hw : w.Idle db) :
    (engine pg).Leads supply (s.updateGroup tenantID id g rec) (fun _ _ => True)
      (fun e _ => e = .groupNotFound → db.groupAt tenantID id = none) w := by
  refine leads_inTx_saying hw (fun e h => (nomatch h)) fun now w' hopen => ?_
  refine leads_bind.mpr (leads_attempt.mpr ((leads_getGroupTx_saying hs hopen).mono ?_ ?_))
  · intro before w'' _
    exact leads_only only_updateGroup_rest (fun e he h => (he.2 h).elim) w''
  · intro e w'' he
    exact leads_handOn he w''

/-- Where the row is there, a blob that PostgreSQL cannot read makes the call say that it is not. -/
theorem leads_updateUser_refused (hq : Quiet supply) (hw : w.Idle db) {c : UserRow}
    (hc : db.userAt tenantID id = some c) (hblob : ∀ x, jsonbParam pg u.extendedAttributes ≠ .ok x) :
    (engine pg).Leads supply (s.updateUser tenantID id u rec) (fun _ _ => False)
      (fun e _ => e = .notFound) w := by
  have hexec : ∀ now, execUpdateUser pg now tenantID id u db db = .error invalidText := by
    intro now
    obtain ⟨hk, -, -⟩ := userAt_eq_some.mp hc
    have hraw : u.extendedAttributes ≠ "" := by
      intro hraw
      refine hblob none ?_
      rw [jsonbParam, if_pos hraw]
    have hjson : pg.jsonb u.extendedAttributes = none := by
      by_contra hsome
      obtain ⟨j, hj⟩ := Option.ne_none_iff_exists'.mp hsome
      refine hblob (some j) ?_
      rw [jsonbParam, if_neg hraw, hj]
    rw [execUpdateUser, parseID, hk, jsonbParam, if_neg hraw, hjson]
  refine leads_inTx hw ?_ fun _ _ hfault _ => (hfault hq).elim
  intro now w' hopen
  refine leads_bind.mpr (leads_tx hopen ?_ ?_)
  · intro env found ws w'' hx _
    have hx' : execUpdateUser pg now tenantID id u db db = _ := hx
    rw [hexec now] at hx'
    cases hx'
  · intro e w'' hx _
    obtain ⟨env, hx⟩ := hx hq
    have hx' : execUpdateUser pg now tenantID id u db db = _ := hx
    rw [hexec now] at hx'
    cases hx'
    exact leads_bind.mpr (leads_bind.mpr (leads_ask_fault (fun _ _ => rfl) fun _ _ _ _ => rfl))

/-- `ErrNotFound` and `ErrGroupNotFound` mean that there is no such row, except for `UpdateUser`, where they
mean it exactly if the row is missing or the blob is none that PostgreSQL refuses. -/
theorem not_found_iff (pg : Postgres) (db : Db) (tenantID id : String) :
    (∀ supply, Faithful supply →
      (returned pg supply (getUser tenantID id) db = .error .notFound → db.userAt tenantID id = none) ∧
      (∀ (s : Store) rec, returned pg supply (s.deactivateUser tenantID id rec) db = .error .notFound →
        db.userAt tenantID id = none) ∧
      (returned pg supply (getGroup tenantID id) db = .error .groupNotFound → db.groupAt tenantID id = none) ∧
      (∀ (s : Store) g rec, returned pg supply (s.updateGroup tenantID id g rec) db = .error .groupNotFound →
        db.groupAt tenantID id = none) ∧
      ∀ (s : Store) rec, returned pg supply (s.deleteGroup tenantID id rec) db = .error .groupNotFound →
        db.groupAt tenantID id = none) ∧
    ∀ (s : Store) u rec,
      (∀ supply, Faithful supply → returned pg supply (s.updateUser tenantID id u rec) db = .error .notFound →
        db.userAt tenantID id = none) ↔
      (db.userAt tenantID id = none ∨ ∃ x, jsonbParam pg u.extendedAttributes = .ok x) := by
  have hw : (World.start db : StoreWorld).Idle db := ⟨rfl, rfl⟩
  refine ⟨?_, ?_⟩
  · intro supply hs
    refine ⟨?_, ?_, ?_, ?_, ?_⟩
    · exact fun h => returned_of_leads (leads_getUser_saying hs hw) h rfl
    · exact fun s rec h => returned_of_leads (leads_deactivateUser_saying hs hw) h rfl
    · exact fun h => returned_of_leads (leads_getGroup_saying hs hw) h rfl
    · exact fun s g rec h => returned_of_leads (leads_updateGroup_saying hs hw) h rfl
    · exact fun s rec h => returned_of_leads (leads_deleteGroup_saying hs hw) h rfl
  · intro s u rec
    constructor
    · intro h
      by_contra hno
      obtain ⟨hrow, hblob⟩ := not_or.mp hno
      obtain ⟨c, hc⟩ := Option.ne_none_iff_exists'.mp hrow
      have hq : Quiet annSupply := fun _ => rfl
      have hfaithful : Faithful annSupply := fun e ⟨n, hn⟩ => (nomatch hn)
      refine hrow (h annSupply hfaithful ?_)
      exact returned_error (leads_updateUser_refused hq hw hc fun x hx => hblob ⟨x, hx⟩)
    · intro h supply hs he
      rcases returned_of_leads (leads_updateUser_saying hs hw) he rfl with hrow | hblob
      · exact hrow
      · rcases h with hrow | ⟨x, hx⟩
        · exact hrow
        · exact (hblob x hx).elim

theorem not_found_nobody : returned plainText annSupply (getUser "tenant_a" someUuid.text) .empty =
    .error .notFound ∧ Db.empty.userAt "tenant_a" someUuid.text = none := by
  have hsaid : returned plainText annSupply (getUser "tenant_a" someUuid.text) .empty = .error .notFound := by
    rfl
  have hfaithful : Faithful annSupply := fun e ⟨n, hn⟩ => (nomatch hn)
  exact ⟨hsaid, ((not_found_iff plainText .empty "tenant_a" someUuid.text).1 annSupply hfaithful).1 hsaid⟩

/-- Go reads it as JSON; `jsonb` does not take the half of a surrogate pair. -/
def halfPair : String := "\x7b\"title\":\"\\ud800\"\x7d"

def pairsOnly : Postgres := ⟨fun text => text, fun raw => if raw = halfPair then none else some raw⟩

def annStored : Db := (createAnn.perform pairsOnly ⟨true⟩ annSupply .empty).2

theorem stored_user_not_found : (annStored.userAt "tenant_a" someUuid.text).isSome ∧
    returned pairsOnly annSupply (updateUser ⟨true⟩ "tenant_a" someUuid.text
      { newUser "ann" with extendedAttributes := halfPair } ⟨"key", "", "tenant_a"⟩) annStored =
        .error .notFound :=
  ⟨by rfl, by rfl⟩

end Scimage.Store
