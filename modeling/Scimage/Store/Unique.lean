import Scimage.Lib.Index
import Scimage.Store.Accepts

/-! What each statement can write, and the unique indexes of users and groups. -/
namespace Scimage.Store

open Txn Engine

variable {pg : Postgres} {now : Time} {env : Env} {tenantID id : String} {snap cur db : Db}
  {ws : List Write} {s : Stmt} {rows : s.Rows}

/-! ### Statements and their tables -/

/-- The kind of rows that a statement writes. -/
def Stmt.mayWrite : Stmt → Write → Bool
  | .insertUser .., .putUser _ | .updateUser .., .putUser _ | .deactivateUser .., .putUser _ => true
  | .insertGroup .., .putGroup _ | .updateGroup .., .putGroup _ => true
  | .deleteGroup .., .dropGroup _ => true
  | .clearMembers .., .dropMember _ => true
  | .addMembers .., .putMember _ => true
  | .insertAudit .., .addAudit _ => true
  | .insertDelivery .., .addDelivery _ => true
  | .replayDelivery .., .putDelivery _ => true
  | .insertToken .., .putToken _ | .touchToken .., .putToken _ | .revokeToken .., .putToken _ => true
  | .insertConsoleToken .., .putConsoleToken _ | .revokeConsoleToken .., .putConsoleToken _ => true
  | .insertAttribute .., .putAttribute _ => true
  | .deleteAttribute .., .dropAttribute _ => true
  | .insertAdminAudit .., .addAdminAudit _ => true
  | _, _ => false

/-- The tenant that a statement on the directory is for. -/
def Stmt.tenant : Stmt → Option String
  | .insertUser t _ | .updateUser t _ _ | .deactivateUser t _ => some t
  | .insertGroup t _ | .updateGroup t _ _ | .deleteGroup t _ => some t
  | .addMembers _ t _ => some t
  | _ => none

theorem exec_mayWrite (h : exec pg now env s snap cur = .ok (rows, ws)) :
    ∀ w ∈ ws, s.mayWrite w = true := by
  cases s with
  | clearMembers id =>
    simp only [exec, execClearMembers] at h
    split at h
    · cases h
    · cases h
      intro w hw
      obtain ⟨m, -, rfl⟩ := List.mem_map.mp hw
      rfl
  | addMembers id tenantID ids =>
    simp only [exec, execAddMembers] at h
    repeat' split at h
    all_goals cases h
    intro w hw
    obtain ⟨m, -, rfl⟩ := List.mem_map.mp hw
    rfl
  | _ =>
    simp only [exec, execInsertUser, execSelectUser, execUpdateUser, execDeactivateUser, execChangeUser,
      execInsertGroup, execSelectGroup, execSelectMembers, execSelectMembersOf, execUpdateGroup,
      execDeleteGroup, execInsertAudit, execInsertDelivery, execReplayDelivery, execInsertToken,
      execTouchToken, execRevokeToken, execInsertConsoleToken, execRevokeConsoleToken,
      execInsertAttribute, execDeleteAttribute, execInsertAdminAudit] at h
    repeat' split at h
    all_goals cases h
    all_goals simp [Stmt.mayWrite]

/-! ### What a statement that puts a row has found -/

theorem changeUser_free {k : Uuid} {set : UserRow → UserRow} {x : Option Change}
    (h : execChangeUser pg tenantID k set snap cur = .ok (x, ws)) :
    ws = [] ∨ ∃ c, ws = [.putUser (set c)] ∧ cur.userOf tenantID k = some c ∧
      userConflict pg cur (set c) = none := by
  unfold execChangeUser at h
  split at h
  · rename_i b c _ hc
    split at h
    · cases h
    · rename_i hfree
      cases h
      exact Or.inr ⟨c, rfl, hc, hfree⟩
  · cases h
    exact Or.inl rfl

theorem updateGroup_free {g : Group} {x : Option Group}
    (h : execUpdateGroup pg now tenantID id g snap cur = .ok (x, ws)) :
    ws = [] ∨ ∃ c r, ws = [.putGroup r] ∧ cur.groups.find? r.id = some c ∧
      r.tenantID = c.tenantID ∧ c.tenantID = tenantID ∧ groupConflict pg cur r = none := by
  unfold execUpdateGroup at h
  split at h
  · cases h
  · rename_i k _
    split at h
    · rename_i c _ hc
      dsimp only at h
      split at h
      · cases h
      · rename_i hfree
        cases h
        obtain ⟨hfind, htenant⟩ := groupOf_eq_some.mp hc
        obtain rfl : c.id = k := Relational.Table.find?_key hfind
        exact Or.inr ⟨c, _, rfl, hfind, rfl, htenant, hfree⟩
    · cases h
      exact Or.inl rfl

/-- A user row is put alone, where it is in nobody's way, and keeps the tenant of its id. -/
structure PutsUser (pg : Postgres) (cur : Db) (tenantID : String) (ws : List Write) (r : UserRow) :
    Prop where
  writes : ws = [.putUser r]
  free : userConflict pg cur r = none
  tenant : r.tenantID = tenantID
  kept : ∀ c, cur.users.find? r.id = some c → c.tenantID = r.tenantID

theorem changeUser_puts {k : Uuid} {set : UserRow → UserRow} {x : Option Change} {r : UserRow}
    (hset : ∀ c, (set c).id = c.id ∧ (set c).tenantID = c.tenantID)
    (h : execChangeUser pg tenantID k set snap cur = .ok (x, ws)) (hr : .putUser r ∈ ws) :
    PutsUser pg cur tenantID ws r := by
  rcases changeUser_free h with rfl | ⟨c, rfl, hc, hfree⟩
  · cases hr
  · obtain rfl := Write.putUser.inj (List.mem_singleton.mp hr)
    obtain ⟨hfind, htenant⟩ := userOf_eq_some.mp hc
    have hid : c.id = k := Relational.Table.find?_key hfind
    refine ⟨rfl, hfree, (hset c).2.trans htenant, fun c' hc' => ?_⟩
    rw [(hset c).1, hid, hfind] at hc'
    rw [(hset c).2, Option.some.inj hc']

theorem exec_putUser (h : exec pg now env s snap cur = .ok (rows, ws)) {r : UserRow}
    (hr : .putUser r ∈ ws) : ∃ t, s.tenant = some t ∧ PutsUser pg cur t ws r := by
  cases s with
  | insertUser tenantID u =>
    obtain ⟨ext, -, hnew, hfree, -, hws⟩ := execInsertUser_ok h
    rw [hws, List.mem_singleton] at hr
    obtain rfl := Write.putUser.inj hr
    exact ⟨tenantID, rfl, hws, hfree, rfl, fun c hc => by cases hnew.symm.trans hc⟩
  | updateUser tenantID id u =>
    simp only [exec, execUpdateUser] at h
    split at h
    · refine ⟨tenantID, rfl, changeUser_puts ?_ h hr⟩
      exact fun c => ⟨rfl, rfl⟩
    · cases h
    · cases h
  | deactivateUser tenantID id =>
    simp only [exec, execDeactivateUser] at h
    split at h
    · cases h
    · refine ⟨tenantID, rfl, changeUser_puts ?_ h hr⟩
      exact fun c => ⟨rfl, rfl⟩
  | _ => exact (Bool.false_ne_true (exec_mayWrite h _ hr)).elim

structure PutsGroup (pg : Postgres) (cur : Db) (tenantID : String) (ws : List Write) (r : GroupRow) :
    Prop where
  writes : ws = [.putGroup r]
  free : groupConflict pg cur r = none
  tenant : r.tenantID = tenantID
  kept : ∀ c, cur.groups.find? r.id = some c → c.tenantID = r.tenantID

theorem exec_putGroup (h : exec pg now env s snap cur = .ok (rows, ws)) {r : GroupRow}
    (hr : .putGroup r ∈ ws) : ∃ t, s.tenant = some t ∧ PutsGroup pg cur t ws r := by
  cases s with
  | insertGroup tenantID g =>
    obtain ⟨x, -, hx, hid, -, -, hnew⟩ := insertGroup_ok h
    obtain ⟨hfree, -, hws⟩ := execInsertGroup_ok h
    rw [hws, List.mem_singleton] at hr
    obtain rfl := Write.putGroup.inj hr
    exact ⟨tenantID, rfl, hws, hfree, rfl, fun c hc => by cases hnew.symm.trans hc⟩
  | updateGroup tenantID id g =>
    rcases updateGroup_free h with rfl | ⟨c, x, rfl, hc, hkept, htenant, hfree⟩
    · cases hr
    · obtain rfl := Write.putGroup.inj (List.mem_singleton.mp hr)
      refine ⟨tenantID, rfl, rfl, hfree, hkept.trans htenant, fun c' hc' => ?_⟩
      rw [hkept, Option.some.inj (hc.symm.trans hc')]
  | _ => exact (Bool.false_ne_true (exec_mayWrite h _ hr)).elim

/-! ### The indexes -/

/-- Two groups of one tenant that the indexes let stand side by side. -/
def GroupsApart (pg : Postgres) (x r : GroupRow) : Prop :=
  pg.lower x.displayName ≠ pg.lower r.displayName ∧
    (r.externalID.isSome → x.externalID ≠ r.externalID)

theorem groupConflict_none {r : GroupRow} (h : groupConflict pg db r = none) :
    ∀ x ∈ db.groups.rows, x.id ≠ r.id → x.tenantID = r.tenantID → GroupsApart pg x r := by
  intro x hx hid htenant
  have hmem : x ∈ db.groups.rows.filter fun y => y.id ≠ r.id ∧ y.tenantID = r.tenantID := by
    simp [hx, hid, htenant]
  unfold groupConflict at h
  dsimp only at h
  split_ifs at h with hname hext
  refine ⟨fun he => hname (List.any_eq_true.mpr ⟨x, hmem, by simp [he]⟩), ?_⟩
  intro hsome he
  exact hext ⟨hsome, List.any_eq_true.mpr ⟨x, hmem, by simp [he]⟩⟩

/-- Two users of one tenant share a name in some case, or an external id. -/
def UsersClash (pg : Postgres) (x y : UserRow) : Prop :=
  x.tenantID = y.tenantID ∧ (pg.lower x.userName = pg.lower y.userName ∨
    ∃ e, x.externalID = some e ∧ y.externalID = some e)

def GroupsClash (pg : Postgres) (x y : GroupRow) : Prop :=
  x.tenantID = y.tenantID ∧ (pg.lower x.displayName = pg.lower y.displayName ∨
    ∃ e, x.externalID = some e ∧ y.externalID = some e)

theorem Apart.not_clash {x y : UserRow} (h : x.tenantID = y.tenantID → Apart pg x y) :
    ¬ UsersClash pg x y := by
  rintro ⟨htenant, hname | ⟨e, hx, hy⟩⟩
  · exact (h htenant).1 hname
  · exact (h htenant).2 (by simp [hy]) (hx.trans hy.symm)

theorem GroupsApart.not_clash {x y : GroupRow} (h : x.tenantID = y.tenantID → GroupsApart pg x y) :
    ¬ GroupsClash pg x y := by
  rintro ⟨htenant, hname | ⟨e, hx, hy⟩⟩
  · exact (h htenant).1 hname
  · exact (h htenant).2 (by simp [hy]) (hx.trans hy.symm)

def usersIndex (pg : Postgres) : Index (engine pg) Uuid UserRow where
  row := userFocus pg
  puts
    | .putUser r => some (r.id, r)
    | _ => none
  clash := UsersClash pg
  symm := by
    rintro x y ⟨htenant, hname | ⟨e, hx, hy⟩⟩
    · exact ⟨htenant.symm, Or.inl hname.symm⟩
    · exact ⟨htenant.symm, Or.inr ⟨e, hy, hx⟩⟩
  arrives db w k x h := by
    cases w with
    | putUser r =>
      simp only [userFocus, engine, Write.apply, Relational.Table.find?_put] at h
      split at h
      · rename_i hk
        exact Or.inr (by rw [hk, ← Option.some.inj h])
      · exact Or.inl h
    | _ => exact Or.inl h
  locks w k x h := by
    cases w with
    | putUser r =>
      cases h
      simp [userFocus, engine, Write.keys]
    | _ => cases h
  shares w w' k k' x y h h' hclash hdisjoint := by
    cases w with
    | putUser r =>
      cases w' with
      | putUser r' =>
        cases h
        cases h'
        obtain ⟨htenant, hname | ⟨e, hx, hy⟩⟩ := hclash
        · exact hdisjoint (a := .userName x.tenantID (pg.lower x.userName)) (by simp [engine, Write.keys])
            (by simp [engine, Write.keys, htenant, hname])
        · exact hdisjoint (a := .userExternalID x.tenantID e) (by simp [engine, Write.keys, hx])
            (by simp [engine, Write.keys, htenant, hy])
      | _ => cases h'
    | _ => cases h
  checked h w hw k x hput := by
    cases w with
    | putUser r =>
      cases hput
      obtain ⟨t, -, hr⟩ := exec_putUser h hw
      refine ⟨hr.writes, fun k' y hne hy => ?_⟩
      have hid : y.id = k' := Relational.Table.find?_key hy
      exact Apart.not_clash (userConflict_none.mp hr.free y (Relational.Table.find?_mem hy)
        (hid ▸ hne))
    | _ => cases hput

/-- The row of a group, without its members. -/
def groupRowFocus (pg : Postgres) (k : Uuid) : Focus (engine pg) (Option GroupRow) where
  key := .group k
  see db := db.groups.find? k
  act
    | .putGroup r, b => if k = r.id then some r else b
    | .dropGroup g, b => if k = g then none else b
    | _, b => b
  see_apply db w := by cases w <;> simp [engine, Write.apply]
  act_other w b h := by cases w <;> simp_all [engine, Write.keys]

def groupsIndex (pg : Postgres) : Index (engine pg) Uuid GroupRow where
  row := groupRowFocus pg
  puts
    | .putGroup r => some (r.id, r)
    | _ => none
  clash := GroupsClash pg
  symm := by
    rintro x y ⟨htenant, hname | ⟨e, hx, hy⟩⟩
    · exact ⟨htenant.symm, Or.inl hname.symm⟩
    · exact ⟨htenant.symm, Or.inr ⟨e, hy, hx⟩⟩
  arrives db w k x h := by
    cases w with
    | putGroup r =>
      simp only [groupRowFocus, engine, Write.apply, Relational.Table.find?_put] at h
      split at h
      · rename_i hk
        exact Or.inr (by rw [hk, ← Option.some.inj h])
      · exact Or.inl h
    | dropGroup g =>
      simp only [groupRowFocus, engine, Write.apply, Relational.Table.find?_remove] at h
      split at h
      · cases h
      · exact Or.inl h
    | _ => exact Or.inl h
  locks w k x h := by
    cases w with
    | putGroup r =>
      cases h
      simp [groupRowFocus, engine, Write.keys]
    | _ => cases h
  shares w w' k k' x y h h' hclash hdisjoint := by
    cases w with
    | putGroup r =>
      cases w' with
      | putGroup r' =>
        cases h
        cases h'
        obtain ⟨htenant, hname | ⟨e, hx, hy⟩⟩ := hclash
        · exact hdisjoint (a := .groupName x.tenantID (pg.lower x.displayName))
            (by simp [engine, Write.keys]) (by simp [engine, Write.keys, htenant, hname])
        · exact hdisjoint (a := .groupExternalID x.tenantID e) (by simp [engine, Write.keys, hx])
            (by simp [engine, Write.keys, htenant, hy])
      | _ => cases h'
    | _ => cases h
  checked h w hw k x hput := by
    cases w with
    | putGroup r =>
      cases hput
      obtain ⟨t, -, hr⟩ := exec_putGroup h hw
      refine ⟨hr.writes, fun k' y hne hy => ?_⟩
      have hid : y.id = k' := Relational.Table.find?_key hy
      exact GroupsApart.not_clash (groupConflict_none hr.free y (Relational.Table.find?_mem hy)
        (hid ▸ hne))
    | _ => cases hput

/-- No two users and no two groups of a tenant share a name or an external id. -/
structure NamesDistinct (pg : Postgres) (db : Db) : Prop where
  users : ∀ x ∈ db.users.rows, ∀ y ∈ db.users.rows, x.id ≠ y.id → ¬ UsersClash pg x y
  groups : ∀ x ∈ db.groups.rows, ∀ y ∈ db.groups.rows, x.id ≠ y.id → ¬ GroupsClash pg x y

/-- Whatever is committed, by whichever calls, the names stay distinct. -/
theorem history_namesDistinct {D : Discipline Stmt.Rows} {R : Condition Stmt.Rows Write Env}
    {log : List (Commit Stmt.Rows Write Env)} (h : (engine pg).History D .empty R log) :
    NamesDistinct pg ((engine pg).current .empty log) := by
  have husers := (usersIndex pg).clear_history (fun _ _ _ _ _ hx => by cases hx) h
  have hgroups := (groupsIndex pg).clear_history (fun _ _ _ _ _ hx => by cases hx) h
  constructor
  · intro x hx y hy hne
    exact husers x.id y.id x y hne (Relational.Table.find?_of_mem hx)
      (Relational.Table.find?_of_mem hy)
  · intro x hx y hy hne
    exact hgroups x.id y.id x y hne (Relational.Table.find?_of_mem hx)
      (Relational.Table.find?_of_mem hy)

end Scimage.Store
