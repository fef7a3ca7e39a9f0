import Scimage.Store.Execution

/-! What the statements that write users need, and the rows they write. -/
namespace Scimage.Store

open Txn Engine

variable {pg : Postgres} {now : Time} {env : Env} {tenantID id : String} {db : Db} {u : User}

/-- The row of a new user. -/
def insertedUser (now : Time) (tenantID : String) (k : Uuid) (u : User) (ext : Option String) :
    UserRow :=
  { u with tenantID, id := k, createdAt := now, updatedAt := now, extendedAttributes := ext }

theorem execInsertUser_ok {created : User} {ws : List Write}
    (h : execInsertUser pg now env tenantID u db = .ok (created, ws)) :
    ∃ ext, jsonbParam pg u.extendedAttributes = .ok ext ∧ db.users.find? env.uuid = none ∧
      userConflict pg db (insertedUser now tenantID env.uuid u ext) = none ∧
      created = scanUser (insertedUser now tenantID env.uuid u ext) ∧
      ws = [.putUser (insertedUser now tenantID env.uuid u ext)] := by
  unfold execInsertUser at h
  cases hext : jsonbParam pg u.extendedAttributes with
  | error e =>
    rw [hext] at h
    cases h
  | ok ext =>
    rw [hext] at h
    dsimp only at h
    split at h
    · cases h
    · rename_i hfind
      split at h
      · cases h
      · rename_i hconflict
        cases h
        refine ⟨ext, rfl, ?_, hconflict, rfl, rfl⟩
        simpa using hfind

/-- The user that a text names in a tenant. -/
def Db.userAt (db : Db) (tenantID id : String) : Option UserRow :=
  (Uuid.parse id).bind fun k => db.userOf tenantID k

theorem userAt_eq_some {r : UserRow} : db.userAt tenantID id = some r ↔
    Uuid.parse id = some r.id ∧ db.users.find? r.id = some r ∧ r.tenantID = tenantID := by
  rw [Db.userAt, Option.bind_eq_some_iff]
  constructor
  · rintro ⟨k, hk, hr⟩
    obtain ⟨hfind, htenant⟩ := userOf_eq_some.mp hr
    have hid : r.id = k := Relational.Table.find?_key hfind
    subst hid
    exact ⟨hk, hfind, htenant⟩
  · rintro ⟨hk, hfind, htenant⟩
    exact ⟨r.id, hk, userOf_eq_some.mpr ⟨hfind, htenant⟩⟩

theorem execUpdateUser_ok {ch : Change} {ws : List Write} :
    execUpdateUser pg now tenantID id u db db = .ok (some ch, ws) ↔
      ∃ c ext, db.userAt tenantID id = some c ∧ jsonbParam pg u.extendedAttributes = .ok ext ∧
        userConflict pg db (replaceUser now u ext c) = none ∧
        ch = ⟨scanUser c, scanUser (replaceUser now u ext c)⟩ ∧
        ws = [.putUser (replaceUser now u ext c)] := by
  rw [execUpdateUser, Db.userAt, parseID]
  cases hk : Uuid.parse id with
  | none => simp
  | some k =>
    cases hext : jsonbParam pg u.extendedAttributes with
    | error e => simp
    | ok ext =>
      simp only [Option.bind_some, execChangeUser]
      cases hc : db.userOf tenantID k with
      | none => simp
      | some c =>
        dsimp only
        cases hconflict : userConflict pg db (replaceUser now u ext c) with
        | some i =>
          constructor
          · intro h
            cases h
          · rintro ⟨c', ext', hc', hext', hno, -⟩
            cases hc'
            cases hext'
            rw [hconflict] at hno
            cases hno
        | none =>
          constructor
          · intro h
            cases h
            exact ⟨c, ext, rfl, rfl, hconflict, rfl, rfl⟩
          · rintro ⟨c', ext', hc', hext', -, rfl, rfl⟩
            cases hc'
            cases hext'
            rfl

theorem execDeactivateUser_ok {ch : Change} {ws : List Write}
    (h : execDeactivateUser pg now tenantID id db db = .ok (some ch, ws)) :
    ∃ c, db.userAt tenantID id = some c ∧ userConflict pg db (deactivated now c) = none ∧
      ws = [.putUser (deactivated now c)] := by
  rw [execDeactivateUser, parseID] at h
  rw [Db.userAt]
  cases hk : Uuid.parse id with
  | none =>
    rw [hk] at h
    cases h
  | some k =>
    rw [hk] at h
    simp only [execChangeUser] at h
    simp only [Option.bind_some]
    cases hc : db.userOf tenantID k with
    | none =>
      simp only [hc] at h
      cases h
    | some c =>
      simp only [hc] at h
      cases hconflict : userConflict pg db (deactivated now c) with
      | some i =>
        rw [hconflict] at h
        cases h
      | none =>
        rw [hconflict] at h
        cases h
        exact ⟨c, rfl, hconflict, rfl⟩

/-! ### Groups -/

def insertedGroup (now : Time) (tenantID : String) (k : Uuid) (g : Group) : GroupRow :=
  ⟨tenantID, k, g.externalID, g.displayName, now, now⟩

theorem execInsertGroup_ok {g created : Group} {ws : List Write}
    (h : execInsertGroup pg now env tenantID g db = .ok (created, ws)) :
    groupConflict pg db (insertedGroup now tenantID env.uuid g) = none ∧
      created = scanGroup (insertedGroup now tenantID env.uuid g) ∧
      ws = [.putGroup (insertedGroup now tenantID env.uuid g)] := by
  unfold execInsertGroup at h
  dsimp only at h
  split at h
  · cases h
  · split at h
    · cases h
    · rename_i hconflict
      cases h
      exact ⟨hconflict, rfl, rfl⟩

/-- The group that a text names in a tenant. -/
def Db.groupAt (db : Db) (tenantID id : String) : Option GroupRow :=
  (Uuid.parse id).bind fun k => db.groupOf tenantID k

theorem groupAt_eq_some {r : GroupRow} : db.groupAt tenantID id = some r ↔
    Uuid.parse id = some r.id ∧ db.groups.find? r.id = some r ∧ r.tenantID = tenantID := by
  rw [Db.groupAt, Option.bind_eq_some_iff]
  constructor
  · rintro ⟨k, hk, hr⟩
    obtain ⟨hfind, htenant⟩ := groupOf_eq_some.mp hr
    have hid : r.id = k := Relational.Table.find?_key hfind
    subst hid
    exact ⟨hk, hfind, htenant⟩
  · rintro ⟨hk, hfind, htenant⟩
    exact ⟨r.id, hk, groupOf_eq_some.mpr ⟨hfind, htenant⟩⟩

def replaceGroup (now : Time) (g : Group) (c : GroupRow) : GroupRow :=
  { c with displayName := g.displayName, externalID := g.externalID, updatedAt := now }

theorem execUpdateGroup_ok {g after : Group} {ws : List Write} :
    execUpdateGroup pg now tenantID id g db db = .ok (some after, ws) ↔
      ∃ c, db.groupAt tenantID id = some c ∧ groupConflict pg db (replaceGroup now g c) = none ∧
        after = scanGroup (replaceGroup now g c) ∧ ws = [.putGroup (replaceGroup now g c)] := by
  rw [execUpdateGroup, Db.groupAt, parseID]
  cases hk : Uuid.parse id with
  | none => simp
  | some k =>
    simp only [Option.bind_some]
    cases hc : db.groupOf tenantID k with
    | none => simp
    | some c =>
      dsimp only
      have hrow : (⟨c.tenantID, c.id, g.externalID, g.displayName, c.createdAt, now⟩ : GroupRow) =
          replaceGroup now g c := rfl
      rw [hrow]
      cases hconflict : groupConflict pg db (replaceGroup now g c) with
      | some i =>
        constructor
        · intro h
          cases h
        · rintro ⟨c', hc', hno, -⟩
          cases hc'
          rw [hconflict] at hno
          cases hno
      | none =>
        constructor
        · intro h
          cases h
          exact ⟨c, rfl, hconflict, rfl, rfl⟩
        · rintro ⟨c', hc', -, rfl, rfl⟩
          cases hc'
          rfl

/-! ### The unique indexes -/

/-- Two users of one tenant that the indexes let stand side by side. -/
def Apart (pg : Postgres) (x r : UserRow) : Prop :=
  pg.lower x.userName ≠ pg.lower r.userName ∧ (r.externalID.isSome → x.externalID ≠ r.externalID)

theorem userConflict_none {r : UserRow} : userConflict pg db r = none ↔
    ∀ x ∈ db.users.rows, x.id ≠ r.id → x.tenantID = r.tenantID → Apart pg x r := by
  unfold userConflict
  dsimp only
  constructor
  · intro h x hx hid htenant
    have hmem : x ∈ db.users.rows.filter fun y => y.id ≠ r.id ∧ y.tenantID = r.tenantID := by
      simp [hx, hid, htenant]
    split_ifs at h with hname hext
    refine ⟨fun he => hname (List.any_eq_true.mpr ⟨x, hmem, by simp [he]⟩), ?_⟩
    intro hsome he
    exact hext ⟨hsome, List.any_eq_true.mpr ⟨x, hmem, by simp [he]⟩⟩
  · intro h
    have hothers : ∀ x ∈ db.users.rows.filter fun y => y.id ≠ r.id ∧ y.tenantID = r.tenantID,
        Apart pg x r := by
      intro x hx
      obtain ⟨hrow, hne⟩ := List.mem_filter.mp hx
      obtain ⟨hid, htenant⟩ := of_decide_eq_true hne
      exact h x hrow hid htenant
    rw [if_neg, if_neg]
    · rintro ⟨hsome, hany⟩
      obtain ⟨x, hx, he⟩ := List.any_eq_true.mp hany
      exact (hothers x hx).2 hsome (of_decide_eq_true he)
    · intro hany
      obtain ⟨x, hx, he⟩ := List.any_eq_true.mp hany
      exact (hothers x hx).1 (of_decide_eq_true he)

/-- No two users are in each other's way. -/
def DistinctUsers (pg : Postgres) (db : Db) : Prop :=
  ∀ a ∈ db.users.rows, userConflict pg db a = none

theorem DistinctUsers.congr {db' : Db} (h : DistinctUsers pg db) (hdb : db'.users = db.users) :
    DistinctUsers pg db' := by
  intro a ha
  rw [hdb] at ha
  have hconflict := h a ha
  unfold userConflict at hconflict ⊢
  rwa [hdb]

theorem Apart.symm {a b : UserRow} (h : Apart pg a b) : Apart pg b a := by
  refine ⟨fun he => h.1 he.symm, fun hsome he => h.2 ?_ he.symm⟩
  rwa [he]

/-- A row that is in nobody's way comes in. -/
theorem DistinctUsers.put {r : UserRow} {db' : Db} (h : DistinctUsers pg db)
    (hr : userConflict pg db r = none) (hdb : db'.users = db.users.put r) : DistinctUsers pg db' := by
  intro a ha
  rw [userConflict_none]
  intro x hx hid htenant
  rw [hdb] at ha hx
  rw [userConflict_none] at hr
  rcases Relational.Table.mem_put.mp ha with rfl | ⟨ha, har⟩
  · rcases Relational.Table.mem_put.mp hx with rfl | ⟨hx, hxr⟩
    · exact (hid rfl).elim
    · exact hr x hx hid htenant
  · rcases Relational.Table.mem_put.mp hx with hxr | ⟨hx, hxr⟩
    · rw [hxr] at htenant ⊢
      exact (hr a ha har htenant.symm).symm
    · exact userConflict_none.mp (h a ha) x hx hid htenant

end Scimage.Store
