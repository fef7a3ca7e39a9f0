import Scimage.Store.Quiet

/-! When a creation is refused because its name is taken. -/
namespace Scimage.Store

open Txn Engine

variable {pg : Postgres} {supply : Nat → Supply Env DbError} {w : StoreWorld} {db : Db} {s : Store}
  {tenantID : String} {rec : AuditRecord} {u : User} {g : Group} {now : Time} {env : Env}

/-- The name of a user of the tenant, in whatever case. -/
def Db.userNamed (pg : Postgres) (db : Db) (tenantID name : String) : Prop :=
  ∃ r ∈ db.users.rows, r.tenantID = tenantID ∧ pg.lower r.userName = pg.lower name

def Db.groupNamed (pg : Postgres) (db : Db) (tenantID name : String) : Prop :=
  ∃ r ∈ db.groups.rows, r.tenantID = tenantID ∧ pg.lower r.displayName = pg.lower name

/-! ### Users -/

theorem userConflict_name (pg : Postgres) {r : UserRow} (hfresh : db.users.find? r.id = none)
    (hext : r.externalID = none) : userConflict pg db r =
      if db.users.rows.any fun x => x.tenantID = r.tenantID ∧ pg.lower x.userName = pg.lower r.userName
      then some uniqueUserNameIndex else none := by
  have hne : ∀ x ∈ db.users.rows, x.id ≠ r.id := by
    intro x hx he
    rw [← he, Relational.Table.find?_of_mem hx] at hfresh
    cases hfresh
  have hothers : db.users.rows.filter (fun x => x.id ≠ r.id ∧ x.tenantID = r.tenantID) =
      db.users.rows.filter fun x => x.tenantID = r.tenantID :=
    List.filter_congr fun x hx => by simp [hne x hx]
  simp only [userConflict, hothers, hext, List.any_filter]
  simp

theorem insertUser_fresh (pg : Postgres) (now : Time) (tenantID : String)
    (hfresh : db.users.find? env.uuid = none)
    (hraw : u.extendedAttributes = "") (hext : u.externalID = none) :
    (db.userNamed pg tenantID u.userName ∧
      execInsertUser pg now env tenantID u db = .error (uniqueViolation uniqueUserNameIndex)) ∨
    ¬ db.userNamed pg tenantID u.userName ∧
      ∃ x, execInsertUser pg now env tenantID u db = .ok x := by
  have hjson : jsonbParam pg u.extendedAttributes = .ok none := by rw [jsonbParam, if_pos hraw]
  have hconflict := userConflict_name pg (r := { u with
    tenantID, id := env.uuid, createdAt := now, updatedAt := now, extendedAttributes := none }) hfresh hext
  simp only [execInsertUser, hjson, hfresh, Option.isSome_none]
  by_cases hnamed : db.userNamed pg tenantID u.userName
  · have hany : (db.users.rows.any fun x =>
        x.tenantID = tenantID ∧ pg.lower x.userName = pg.lower u.userName) = true := by
      simpa [Db.userNamed] using hnamed
    rw [hconflict, if_pos hany]
    exact Or.inl ⟨hnamed, rfl⟩
  · have hany : ¬ (db.users.rows.any fun x =>
        x.tenantID = tenantID ∧ pg.lower x.userName = pg.lower u.userName) = true := by
      simpa [Db.userNamed] using hnamed
    rw [hconflict, if_neg hany]
    exact Or.inr ⟨hnamed, _, rfl⟩

theorem leads_createUser_named (hq : Quiet supply)
    (hfresh : ∀ n, db.users.find? (supply n).env.uuid = none) (hraw : u.extendedAttributes = "")
    (hext : u.externalID = none) (hw : w.Idle db) :
    (engine pg).Leads supply (s.createUser tenantID u rec)
      (fun _ _ => ¬ db.userNamed pg tenantID u.userName)
      (fun e _ => e = .duplicateUserName ∧ db.userNamed pg tenantID u.userName) w := by
  refine leads_inTx hw ?_ ?_
  · intro now w' hopen
    refine leads_bind.mpr (leads_tx_supplied hopen ?_ ?_)
    · intro n created ws w'' hx hopen'
      have hfree : ¬ db.userNamed pg tenantID u.userName := by
        rcases insertUser_fresh pg now tenantID (hfresh n) hraw hext with
          ⟨-, herr⟩ | ⟨hfree, -⟩
        · exact absurd (herr.symm.trans hx) (by simp)
        · exact hfree
      obtain ⟨r, hr, -⟩ := insertUser_ok hx
      have hk : Uuid.parse created.id = some r.id := by rw [hr, scanUser_id, Uuid.parse_text]
      exact leads_recorded_user (x := none) hopen' hk (fun _ _ _ _ _ _ => hfree)
        fun _ _ hnot => (hnot hq).elim
    · intro e w'' hx hdb
      obtain ⟨n, hx⟩ := hx hq
      rcases insertUser_fresh pg now tenantID (hfresh n) hraw hext with
        ⟨hnamed, herr⟩ | ⟨-, x, hok⟩
      · cases herr.symm.trans hx
        have hdup : isUniqueViolation (uniqueViolation uniqueUserNameIndex) = true := by decide
        dsimp only
        rw [if_pos hdup]
        exact leads_bind.mpr (leads_auditRefusal hdb fun _ _ _ _ _ => ⟨rfl, hnamed⟩)
      · cases hok.symm.trans hx
  · intro e w' hnot
    exact (hnot hq).elim

/-! ### Groups -/

theorem groupConflict_name (pg : Postgres) {r : GroupRow} (hfresh : db.groups.find? r.id = none)
    (hext : r.externalID = none) : groupConflict pg db r =
      if db.groups.rows.any fun x =>
        x.tenantID = r.tenantID ∧ pg.lower x.displayName = pg.lower r.displayName
      then some uniqueGroupNameIndex else none := by
  have hne : ∀ x ∈ db.groups.rows, x.id ≠ r.id := by
    intro x hx he
    rw [← he, Relational.Table.find?_of_mem hx] at hfresh
    cases hfresh
  have hothers : db.groups.rows.filter (fun x => x.id ≠ r.id ∧ x.tenantID = r.tenantID) =
      db.groups.rows.filter fun x => x.tenantID = r.tenantID :=
    List.filter_congr fun x hx => by simp [hne x hx]
  simp only [groupConflict, hothers, hext, List.any_filter]
  simp

theorem insertGroup_fresh (pg : Postgres) (now : Time) (tenantID : String)
    (hfresh : db.groups.find? env.uuid = none) (hext : g.externalID = none) :
    (db.groupNamed pg tenantID g.displayName ∧
      execInsertGroup pg now env tenantID g db = .error (uniqueViolation uniqueGroupNameIndex)) ∨
    ¬ db.groupNamed pg tenantID g.displayName ∧
      ∃ x, execInsertGroup pg now env tenantID g db = .ok x := by
  have hconflict := groupConflict_name pg
    (r := ⟨tenantID, env.uuid, g.externalID, g.displayName, now, now⟩) hfresh hext
  simp only [execInsertGroup, hfresh, Option.isSome_none]
  by_cases hnamed : db.groupNamed pg tenantID g.displayName
  · have hany : (db.groups.rows.any fun x =>
        x.tenantID = tenantID ∧ pg.lower x.displayName = pg.lower g.displayName) = true := by
      simpa [Db.groupNamed] using hnamed
    rw [hconflict, if_pos hany]
    exact Or.inl ⟨hnamed, rfl⟩
  · have hany : ¬ (db.groups.rows.any fun x =>
        x.tenantID = tenantID ∧ pg.lower x.displayName = pg.lower g.displayName) = true := by
      simpa [Db.groupNamed] using hnamed
    rw [hconflict, if_neg hany]
    exact Or.inr ⟨hnamed, _, rfl⟩

theorem leads_createGroup_named (hq : Quiet supply)
    (hfresh : ∀ n, db.groups.find? (supply n).env.uuid = none) (hext : g.externalID = none)
    (hmembers : g.members = []) (hw : w.Idle db) :
    (engine pg).Leads supply (s.createGroup tenantID g rec)
      (fun _ _ => ¬ db.groupNamed pg tenantID g.displayName)
      (fun e _ => e = .duplicateGroupName ∧ db.groupNamed pg tenantID g.displayName) w := by
  refine leads_inTx hw ?_ ?_
  · intro now w' hopen
    refine leads_bind.mpr (leads_tx_supplied hopen ?_ ?_)
    · intro n created ws w'' hx hopen'
      have hfree : ¬ db.groupNamed pg tenantID g.displayName := by
        rcases insertGroup_fresh pg now tenantID (hfresh n) hext with ⟨-, herr⟩ | ⟨hfree, -⟩
        · exact absurd (herr.symm.trans hx) (by simp)
        · exact hfree
      obtain ⟨r, hr, -⟩ := insertGroup_ok hx
      have hk : Uuid.parse created.id = some r.id := by rw [hr, scanGroup_id, Uuid.parse_text]
      refine leads_bind.mpr (leads_attempt.mpr (leads_replaceMembers hopen' hk ?_ ?_))
      · intro v w₁ hex hopen₁
        refine leads_bind.mpr (leads_fetchMembers hopen₁ hk ?_ fun _ _ hnot => (hnot hq).elim)
        intro w₂ hopen₂
        exact leads_recorded_group (x := none) (y := some _) hopen₂ hk (fun _ _ _ _ _ _ => hfree)
          fun _ _ hnot => (hnot hq).elim
      · intro e w₁ hnot _ _
        have hclear : ∃ n ws', execClearMembers created.id ((engine pg).applyAll db ws) =
            .ok (n, ws') := by
          simp [execClearMembers, parseID, hk]
        obtain ⟨n, ws', hclear⟩ := hclear
        have hempty : (dedupeNonEmpty g.members).isEmpty = true := by rw [hmembers]; rfl
        exact (hnot hq ⟨_, n, ws', hclear, (if_pos hempty).mpr rfl⟩).elim
    · intro e w'' hx hdb
      obtain ⟨n, hx⟩ := hx hq
      rcases insertGroup_fresh pg now tenantID (hfresh n) hext with ⟨hnamed, herr⟩ | ⟨-, x, hok⟩
      · cases herr.symm.trans hx
        have hdup : isUniqueViolationOn (uniqueViolation uniqueGroupNameIndex)
            uniqueGroupNameIndex = true := by decide
        dsimp only
        rw [if_pos hdup]
        exact leads_bind.mpr (leads_auditRefusal hdb fun _ _ _ _ _ => ⟨rfl, hnamed⟩)
      · cases hok.symm.trans hx
  · intro e w' hnot
    exact (hnot hq).elim

/-- Where a group row clashes with nothing, a row like it does not with fewer groups. -/
theorem groupConflict_like {v : Db} {r r' : GroupRow} (hid : r'.id = r.id)
    (htenant : r'.tenantID = r.tenantID) (hname : r'.displayName = r.displayName)
    (hext : r'.externalID = r.externalID)
    (hsub : ∀ x ∈ db.groups.rows, x.id ≠ r.id → x ∈ v.groups.rows) (h : groupConflict pg v r = none) :
    groupConflict pg db r' = none := by
  have hmem : ∀ x, x ∈ db.groups.rows.filter (fun x => x.id ≠ r.id ∧ x.tenantID = r.tenantID) →
      x ∈ v.groups.rows.filter (fun x => x.id ≠ r.id ∧ x.tenantID = r.tenantID) := by
    intro x hx
    rw [List.mem_filter, decide_eq_true_eq] at hx ⊢
    exact ⟨hsub x hx.1 hx.2.1, hx.2⟩
  have hany : ∀ p : GroupRow → Bool,
      (db.groups.rows.filter fun x => x.id ≠ r.id ∧ x.tenantID = r.tenantID).any p = true →
      (v.groups.rows.filter fun x => x.id ≠ r.id ∧ x.tenantID = r.tenantID).any p = true := by
    intro p hp
    obtain ⟨x, hx, hpx⟩ := List.any_eq_true.mp hp
    exact List.any_eq_true.mpr ⟨x, hmem x hx, hpx⟩
  unfold groupConflict at h ⊢
  dsimp only at h ⊢
  rw [hid, htenant, hname, hext]
  split_ifs at h with hnamed hexternal
  rw [if_neg fun hn => hnamed (hany _ hn), if_neg fun he => hexternal ⟨he.1, hany _ he.2⟩]

theorem groupConflict_fewer {v : Db} {c r : GroupRow} {now : Time} (hid : c.id = r.id)
    (htenant : c.tenantID = r.tenantID) (hname : g.displayName = r.displayName)
    (hext : g.externalID = r.externalID)
    (hsub : ∀ x ∈ db.groups.rows, x.id ≠ r.id → x ∈ v.groups.rows) (h : groupConflict pg v r = none) :
    groupConflict pg db (replaceGroup now g c) = none :=
  groupConflict_like hid htenant hname hext hsub h

end Scimage.Store
