import Scimage.Store.Quiet

/-! What the calls answer when a unique index stands in the way of a row. -/
namespace Scimage.Store

open Txn Engine

variable {pg : Postgres} {supply : Nat → Supply Env DbError} {w : StoreWorld} {db : Db} {s : Store}
  {tenantID id : String} {rec : AuditRecord} {u : User} {g : Group} {own : Option Uuid}

/-- Another user of the tenant has the name, in whatever case. A row that does not exist yet is
none of the others. -/
def Db.UserNameTaken (pg : Postgres) (db : Db) (tenantID : String) (own : Option Uuid) (name : String) :
    Prop :=
  ∃ x ∈ db.users.rows, own ≠ some x.id ∧ x.tenantID = tenantID ∧ pg.lower x.userName = pg.lower name

def Db.UserExternalTaken (db : Db) (tenantID : String) (own : Option Uuid) (externalID : Option String) :
    Prop :=
  externalID.isSome ∧ ∃ x ∈ db.users.rows, own ≠ some x.id ∧ x.tenantID = tenantID ∧
    x.externalID = externalID

def Db.GroupNameTaken (pg : Postgres) (db : Db) (tenantID : String) (own : Option Uuid) (name : String) :
    Prop :=
  ∃ x ∈ db.groups.rows, own ≠ some x.id ∧ x.tenantID = tenantID ∧ pg.lower x.displayName = pg.lower name

def Db.GroupExternalTaken (db : Db) (tenantID : String) (own : Option Uuid) (externalID : Option String) :
    Prop :=
  externalID.isSome ∧ ∃ x ∈ db.groups.rows, own ≠ some x.id ∧ x.tenantID = tenantID ∧
    x.externalID = externalID

/-- How a call fails whose row is refused: by the index of the name, which it answers for and notes,
or by another one, which it hands on as it is. -/
def Clash (rec : AuditRecord) (resource : Resource) (action : Action) (db : Db) (named : Prop)
    (duplicate : StoreError) (e : StoreError) (db' : Db) : Prop :=
  (named ∧ e = duplicate ∧ Refused rec resource action db db') ∨
    ¬ named ∧ (∃ x, e = .db x) ∧ db' = db

/-! ### The index that is reported -/

theorem others_any {ρ : Type} {rows : List ρ} {other clashes : ρ → Prop} [DecidablePred other]
    [DecidablePred clashes] :
    ((rows.filter fun x => other x).any fun x => clashes x) = true ↔ ∃ x ∈ rows, other x ∧ clashes x := by
  simp only [List.any_eq_true, List.mem_filter, decide_eq_true_eq, and_assoc]

theorem userConflict_named {r : UserRow}
    (h : ∃ x ∈ db.users.rows, (x.id ≠ r.id ∧ x.tenantID = r.tenantID) ∧
      pg.lower x.userName = pg.lower r.userName) : userConflict pg db r = some uniqueUserNameIndex :=
  if_pos (others_any.mpr h)

theorem userConflict_unnamed {r : UserRow}
    (h : ¬ ∃ x ∈ db.users.rows, (x.id ≠ r.id ∧ x.tenantID = r.tenantID) ∧
      pg.lower x.userName = pg.lower r.userName)
    (hext : r.externalID.isSome ∧ ∃ x ∈ db.users.rows, (x.id ≠ r.id ∧ x.tenantID = r.tenantID) ∧
      x.externalID = r.externalID) : userConflict pg db r = some uniqueUserExternalIDIndex :=
  (if_neg fun hany => h (others_any.mp hany)).trans (if_pos ⟨hext.1, others_any.mpr hext.2⟩)

theorem groupConflict_named {r : GroupRow}
    (h : ∃ x ∈ db.groups.rows, (x.id ≠ r.id ∧ x.tenantID = r.tenantID) ∧
      pg.lower x.displayName = pg.lower r.displayName) :
    groupConflict pg db r = some uniqueGroupNameIndex :=
  if_pos (others_any.mpr h)

theorem groupConflict_unnamed {r : GroupRow}
    (h : ¬ ∃ x ∈ db.groups.rows, (x.id ≠ r.id ∧ x.tenantID = r.tenantID) ∧
      pg.lower x.displayName = pg.lower r.displayName)
    (hext : r.externalID.isSome ∧ ∃ x ∈ db.groups.rows, (x.id ≠ r.id ∧ x.tenantID = r.tenantID) ∧
      x.externalID = r.externalID) : groupConflict pg db r = some uniqueGroupExternalIDIndex :=
  (if_neg fun hany => h (others_any.mp hany)).trans (if_pos ⟨hext.1, others_any.mpr hext.2⟩)

theorem noted_refused {resource : Resource} {action : Action} {target : String} {db' : Db}
    (hwrite : Writable target) (h : Noted rec resource action target db db') :
    Refused rec resource action db db' := by
  rcases h with ⟨-, hrefused⟩ | ⟨hnot, -⟩
  · exact hrefused
  · exact (hnot hwrite).elim

/-! ### The statements -/

/-- The statement is refused by the index of the name, or only by that of the external id. -/
def Reports (named : Prop) (nameIndex externalIndex : String) (x : Effects β) : Prop :=
  (named ∧ x = .error (uniqueViolation nameIndex)) ∨
    ¬ named ∧ x = .error (uniqueViolation externalIndex)

theorem insertUser_reports (now : Time) {env : Env} {ext : Option String}
    (hfresh : db.users.find? env.uuid = none) (hext : jsonbParam pg u.extendedAttributes = .ok ext)
    (htaken : db.UserNameTaken pg tenantID none u.userName ∨
      db.UserExternalTaken tenantID none u.externalID) :
    Reports (db.UserNameTaken pg tenantID none u.userName) uniqueUserNameIndex uniqueUserExternalIDIndex
      (execInsertUser pg now env tenantID u db) := by
  have hne : ∀ x ∈ db.users.rows, x.id ≠ env.uuid := by
    intro x hx he
    rw [← he, Relational.Table.find?_of_mem hx] at hfresh
    cases hfresh
  have hexec : ∀ i, userConflict pg db (insertedUser now tenantID env.uuid u ext) = some i →
      execInsertUser pg now env tenantID u db = .error (uniqueViolation i) := by
    intro i hi
    have hi' : userConflict pg db { u with
      tenantID, id := env.uuid, createdAt := now, updatedAt := now, extendedAttributes := ext } = some i := hi
    simp only [execInsertUser, hext, hfresh, Option.isSome_none, hi']
    rfl
  by_cases hnamed : db.UserNameTaken pg tenantID none u.userName
  · refine Or.inl ⟨hnamed, hexec _ (userConflict_named ?_)⟩
    obtain ⟨x, hx, -, htenant, hname⟩ := hnamed
    exact ⟨x, hx, ⟨hne x hx, htenant⟩, hname⟩
  · refine Or.inr ⟨hnamed, hexec _ (userConflict_unnamed ?_ ?_)⟩
    · rintro ⟨x, hx, ⟨-, htenant⟩, hname⟩
      exact hnamed ⟨x, hx, by simp, htenant, hname⟩
    · obtain ⟨hsome, x, hx, -, htenant, hsame⟩ := htaken.resolve_left hnamed
      exact ⟨hsome, x, hx, ⟨hne x hx, htenant⟩, hsame⟩

theorem updateUser_reports (now : Time) {c : UserRow} {ext : Option String}
    (hc : db.userAt tenantID id = some c) (hext : jsonbParam pg u.extendedAttributes = .ok ext)
    (htaken : db.UserNameTaken pg tenantID (some c.id) u.userName ∨
      db.UserExternalTaken tenantID (some c.id) u.externalID) :
    Reports (db.UserNameTaken pg tenantID (some c.id) u.userName) uniqueUserNameIndex
      uniqueUserExternalIDIndex (execUpdateUser pg now tenantID id u db db) := by
  obtain ⟨hk, hfind, htenant⟩ := userAt_eq_some.mp hc
  have hof : db.userOf tenantID c.id = some c := userOf_eq_some.mpr ⟨hfind, htenant⟩
  have hexec : ∀ i, userConflict pg db (replaceUser now u ext c) = some i →
      execUpdateUser pg now tenantID id u db db = .error (uniqueViolation i) := by
    intro i hi
    simp only [execUpdateUser, parseID, hk, hext, execChangeUser, hof, hi]
  have hne : ∀ x : UserRow, some c.id ≠ some x.id ↔ x.id ≠ c.id := by
    intro x
    rw [Ne, Option.some.injEq, eq_comm]
  by_cases hnamed : db.UserNameTaken pg tenantID (some c.id) u.userName
  · refine Or.inl ⟨hnamed, hexec _ (userConflict_named ?_)⟩
    obtain ⟨x, hx, hid, hx', hname⟩ := hnamed
    exact ⟨x, hx, ⟨(hne x).mp hid, hx'.trans htenant.symm⟩, hname⟩
  · refine Or.inr ⟨hnamed, hexec _ (userConflict_unnamed ?_ ?_)⟩
    · rintro ⟨x, hx, ⟨hid, hx'⟩, hname⟩
      exact hnamed ⟨x, hx, (hne x).mpr hid, hx'.trans htenant, hname⟩
    · obtain ⟨hsome, x, hx, hid, hx', hsame⟩ := htaken.resolve_left hnamed
      exact ⟨hsome, x, hx, ⟨(hne x).mp hid, hx'.trans htenant.symm⟩, hsame⟩

theorem insertGroup_reports (now : Time) {env : Env} (hfresh : db.groups.find? env.uuid = none)
    (htaken : db.GroupNameTaken pg tenantID none g.displayName ∨
      db.GroupExternalTaken tenantID none g.externalID) :
    Reports (db.GroupNameTaken pg tenantID none g.displayName) uniqueGroupNameIndex
      uniqueGroupExternalIDIndex (execInsertGroup pg now env tenantID g db) := by
  have hne : ∀ x ∈ db.groups.rows, x.id ≠ env.uuid := by
    intro x hx he
    rw [← he, Relational.Table.find?_of_mem hx] at hfresh
    cases hfresh
  have hexec : ∀ i, groupConflict pg db ⟨tenantID, env.uuid, g.externalID, g.displayName, now, now⟩ = some i →
      execInsertGroup pg now env tenantID g db = .error (uniqueViolation i) := by
    intro i hi
    simp only [execInsertGroup, hfresh, Option.isSome_none, hi]
    rfl
  by_cases hnamed : db.GroupNameTaken pg tenantID none g.displayName
  · refine Or.inl ⟨hnamed, hexec _ (groupConflict_named ?_)⟩
    obtain ⟨x, hx, -, htenant, hname⟩ := hnamed
    exact ⟨x, hx, ⟨hne x hx, htenant⟩, hname⟩
  · refine Or.inr ⟨hnamed, hexec _ (groupConflict_unnamed ?_ ?_)⟩
    · rintro ⟨x, hx, ⟨-, htenant⟩, hname⟩
      exact hnamed ⟨x, hx, by simp, htenant, hname⟩
    · obtain ⟨hsome, x, hx, -, htenant, hsame⟩ := htaken.resolve_left hnamed
      exact ⟨hsome, x, hx, ⟨hne x hx, htenant⟩, hsame⟩

theorem updateGroup_reports (now : Time) {c : GroupRow} (hc : db.groupAt tenantID id = some c)
    (htaken : db.GroupNameTaken pg tenantID (some c.id) g.displayName ∨
      db.GroupExternalTaken tenantID (some c.id) g.externalID) :
    Reports (db.GroupNameTaken pg tenantID (some c.id) g.displayName) uniqueGroupNameIndex
      uniqueGroupExternalIDIndex (execUpdateGroup pg now tenantID id g db db) := by
  obtain ⟨hk, hfind, htenant⟩ := groupAt_eq_some.mp hc
  have hof : db.groupOf tenantID c.id = some c := groupOf_eq_some.mpr ⟨hfind, htenant⟩
  have hexec : ∀ i, groupConflict pg db (replaceGroup now g c) = some i →
      execUpdateGroup pg now tenantID id g db db = .error (uniqueViolation i) := by
    intro i hi
    have hi' : groupConflict pg db { c with
      displayName := g.displayName, externalID := g.externalID, updatedAt := now } = some i := hi
    simp only [execUpdateGroup, parseID, hk, hof, hi']
  have hne : ∀ x : GroupRow, some c.id ≠ some x.id ↔ x.id ≠ c.id := by
    intro x
    rw [Ne, Option.some.injEq, eq_comm]
  by_cases hnamed : db.GroupNameTaken pg tenantID (some c.id) g.displayName
  · refine Or.inl ⟨hnamed, hexec _ (groupConflict_named ?_)⟩
    obtain ⟨x, hx, hid, hx', hname⟩ := hnamed
    exact ⟨x, hx, ⟨(hne x).mp hid, hx'.trans htenant.symm⟩, hname⟩
  · refine Or.inr ⟨hnamed, hexec _ (groupConflict_unnamed ?_ ?_)⟩
    · rintro ⟨x, hx, ⟨hid, hx'⟩, hname⟩
      exact hnamed ⟨x, hx, (hne x).mpr hid, hx'.trans htenant, hname⟩
    · obtain ⟨hsome, x, hx, hid, hx', hsame⟩ := htaken.resolve_left hnamed
      exact ⟨hsome, x, hx, ⟨(hne x).mp hid, hx'.trans htenant.symm⟩, hsame⟩

/-! ### The calls -/

theorem reports_not_ok {named : Prop} {i j : String} {x : β × List Write} :
    ¬ Reports named i j (.ok x : Effects β) := by
  rintro (⟨-, h⟩ | ⟨-, h⟩) <;> cases h

/-- The refusal of a name is noted. -/
theorem leads_duplicate {resource : Resource} {action : Action} {target detail : String} {named : Prop}
    {e : StoreError} (hq : Quiet supply) (hw : w.db = db) (htarget : Writable target) (hnamed : named) :
    (engine pg).Leads supply (do
      auditRefusal rec resource action target detail
      throw e : Call α) (fun _ w' => ∀ w'' : StoreWorld, w''.Idle w'.db → False)
      (fun e' w' => ∀ w'' : StoreWorld, w''.Idle w'.db → Clash rec resource action db named e e' w''.db) w := by
  refine leads_bind.mpr (leads_auditRefusal hw ?_)
  intro w' _ hnoted w'' hidle
  rw [hidle.1]
  exact Or.inl ⟨hnamed, rfl, noted_refused htarget (hnoted hq)⟩

/-- Any other index is handed on. -/
theorem clash_other {resource : Resource} {action : Action} {named : Prop} {duplicate : StoreError}
    {x : DbError} {w' w'' : StoreWorld} (hnamed : ¬ named) (hdb : w'.db = db) (hidle : w''.Idle w'.db) :
    Clash rec resource action db named duplicate (.db x) w''.db :=
  Or.inr ⟨hnamed, ⟨x, rfl⟩, hidle.1.trans hdb⟩

theorem leads_createUser_clash {ext : Option String} (hq : Quiet supply)
    (hfresh : ∀ n, db.users.find? (supply n).env.uuid = none)
    (hext : jsonbParam pg u.extendedAttributes = .ok ext)
    (htaken : db.UserNameTaken pg tenantID none u.userName ∨
      db.UserExternalTaken tenantID none u.externalID) (hw : w.Idle db) :
    (engine pg).Leads supply (s.createUser tenantID u rec) (fun _ _ => False)
      (fun e w' => Clash rec .user .create db (db.UserNameTaken pg tenantID none u.userName)
        .duplicateUserName e w'.db) w := by
  refine leads_inTx hw ?_ fun _ _ hfault _ => (hfault hq).elim
  intro now w' hopen
  refine leads_bind.mpr (leads_tx_supplied hopen ?_ ?_)
  · intro n created ws w'' hx _
    have hreports := insertUser_reports now (hfresh n) hext htaken
    change execInsertUser pg now (supply n).env tenantID u db = _ at hx
    rw [hx] at hreports
    exact (reports_not_ok hreports).elim
  · intro e w'' hx hdb
    obtain ⟨n, hx⟩ := hx hq
    change execInsertUser pg now (supply n).env tenantID u db = _ at hx
    rcases insertUser_reports now (hfresh n) hext htaken with ⟨hnamed, hr⟩ | ⟨hnamed, hr⟩
    · cases hr.symm.trans hx
      exact leads_duplicate hq hdb (Or.inl rfl) hnamed
    · cases hr.symm.trans hx
      intro w₁ hidle
      exact clash_other hnamed hdb hidle

theorem leads_updateUser_clash {c : UserRow} {ext : Option String} (hq : Quiet supply)
    (hc : db.userAt tenantID id = some c) (hext : jsonbParam pg u.extendedAttributes = .ok ext)
    (htaken : db.UserNameTaken pg tenantID (some c.id) u.userName ∨
      db.UserExternalTaken tenantID (some c.id) u.externalID) (hw : w.Idle db) :
    (engine pg).Leads supply (s.updateUser tenantID id u rec) (fun _ _ => False)
      (fun e w' => Clash rec .user .replace db (db.UserNameTaken pg tenantID (some c.id) u.userName)
        .duplicateUserName e w'.db) w := by
  have htarget : Writable id := Or.inr (Option.isSome_iff_exists.mpr ⟨c.id, (userAt_eq_some.mp hc).1⟩)
  refine leads_inTx hw ?_ fun _ _ hfault _ => (hfault hq).elim
  intro now w' hopen
  have hreports := updateUser_reports now hc hext htaken
  refine leads_bind.mpr (leads_tx hopen ?_ ?_)
  · intro env found ws w'' hx _
    change execUpdateUser pg now tenantID id u db db = _ at hx
    rw [hx] at hreports
    exact (reports_not_ok hreports).elim
  · intro e w'' hx hdb
    obtain ⟨env, hx⟩ := hx hq
    change execUpdateUser pg now tenantID id u db db = _ at hx
    rcases hreports with ⟨hnamed, hr⟩ | ⟨hnamed, hr⟩
    · cases hr.symm.trans hx
      exact leads_duplicate hq hdb htarget hnamed
    · cases hr.symm.trans hx
      intro w₁ hidle
      exact clash_other hnamed hdb hidle

theorem leads_createGroup_clash (hq : Quiet supply)
    (hfresh : ∀ n, db.groups.find? (supply n).env.uuid = none)
    (htaken : db.GroupNameTaken pg tenantID none g.displayName ∨
      db.GroupExternalTaken tenantID none g.externalID) (hw : w.Idle db) :
    (engine pg).Leads supply (s.createGroup tenantID g rec) (fun _ _ => False)
      (fun e w' => Clash rec .group .create db (db.GroupNameTaken pg tenantID none g.displayName)
        .duplicateGroupName e w'.db) w := by
  refine leads_inTx hw ?_ fun _ _ hfault _ => (hfault hq).elim
  intro now w' hopen
  refine leads_bind.mpr (leads_tx_supplied hopen ?_ ?_)
  · intro n created ws w'' hx _
    have hreports := insertGroup_reports now (hfresh n) htaken
    change execInsertGroup pg now (supply n).env tenantID g db = _ at hx
    rw [hx] at hreports
    exact (reports_not_ok hreports).elim
  · intro e w'' hx hdb
    obtain ⟨n, hx⟩ := hx hq
    change execInsertGroup pg now (supply n).env tenantID g db = _ at hx
    rcases insertGroup_reports now (hfresh n) htaken with ⟨hnamed, hr⟩ | ⟨hnamed, hr⟩
    · cases hr.symm.trans hx
      exact leads_duplicate hq hdb (Or.inl rfl) hnamed
    · cases hr.symm.trans hx
      intro w₁ hidle
      exact clash_other hnamed hdb hidle

theorem leads_updateGroup_clash {c : GroupRow} (hq : Quiet supply) (hc : db.groupAt tenantID id = some c)
    (htaken : db.GroupNameTaken pg tenantID (some c.id) g.displayName ∨
      db.GroupExternalTaken tenantID (some c.id) g.externalID) (hw : w.Idle db) :
    (engine pg).Leads supply (s.updateGroup tenantID id g rec) (fun _ _ => False)
      (fun e w' => Clash rec .group .replace db (db.GroupNameTaken pg tenantID (some c.id) g.displayName)
        .duplicateGroupName e w'.db) w := by
  have htarget : Writable id := Or.inr (Option.isSome_iff_exists.mpr ⟨c.id, (groupAt_eq_some.mp hc).1⟩)
  refine leads_inTx hw ?_ fun _ _ hfault _ => (hfault hq).elim
  intro now w' hopen
  have hreports := updateGroup_reports now hc htaken
  refine leads_bind.mpr (leads_attempt.mpr (leads_getGroupTx hopen ?_ ?_))
  · intro r w'' _ hopen'
    refine leads_bind.mpr (leads_tx hopen' ?_ ?_)
    · intro env found ws w₁ hx _
      change execUpdateGroup pg now tenantID id g db db = _ at hx
      rw [hx] at hreports
      exact (reports_not_ok hreports).elim
    · intro e w₁ hx hdb
      obtain ⟨env, hx⟩ := hx hq
      change execUpdateGroup pg now tenantID id g db db = _ at hx
      rcases hreports with ⟨hnamed, hr⟩ | ⟨hnamed, hr⟩
      · cases hr.symm.trans hx
        exact leads_duplicate hq hdb htarget hnamed
      · cases hr.symm.trans hx
        intro w₂ hidle
        exact clash_other hnamed hdb hidle
  · intro e w'' hmissing _ _
    rw [hmissing hq] at hc
    cases hc

end Scimage.Store
