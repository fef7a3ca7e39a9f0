import Scimage.Store.Statement
import Scimage.Lib.Focus

/-! Users and groups as the audit log and the events show them, and who can change them. -/
namespace Scimage.Store

open Txn Relational

inductive Target where
  | user (k : Uuid)
  | group (k : Uuid)
  deriving DecidableEq

def Target.of : Resource → Uuid → Target
  | .user => .user
  | .group => .group

def Target.key : Target → Key
  | .user k => .user k
  | .group k => .group k

def Db.image (db : Db) : Target → Option Image
  | .user k => (db.userImage k).map .user
  | .group k => (db.groupImage k).map .group

def AuditRow.target (a : AuditRow) : Option Target := a.targetID.map (Target.of a.resourceType)

def EventType.resource : EventType → Resource
  | .userCreated | .userReplaced | .userDeactivated => .user
  | .groupCreated | .groupReplaced | .groupDeleted => .group

def DeliveryRow.target (d : DeliveryRow) : Option Target :=
  d.targetID.map (Target.of d.eventType.resource)

def Payload.before : Payload → Option Image
  | .user e => e.before.map .user
  | .group e => e.before.map .group

def Payload.after : Payload → Option Image
  | .user e => some (.user e.after)
  | .group e => e.after.map .group

def Payload.occurredAt : Payload → Time
  | .user e => e.occurredAt
  | .group e => e.occurredAt

/-- The tenant that a group's row names. -/
def Db.owner (db : Db) (k : Uuid) : Option String := (db.groups.find? k).map GroupRow.tenantID

@[simp] theorem image_user (db : Db) (k : Uuid) :
    db.image (.user k) = (db.users.find? k).map fun r => .user (scanUser r) := by
  simp [Db.image, Db.userImage, Function.comp_def]

variable (pg : Postgres)

/-- The row of a user. -/
def userFocus (k : Uuid) : Focus (engine pg) (Option UserRow) where
  key := .user k
  see db := db.users.find? k
  act
    | .putUser r, b => if k = r.id then some r else b
    | _, b => b
  see_apply db w := by cases w <;> simp [engine, Write.apply]
  act_other w b h := by cases w <;> simp_all [engine, Write.keys]

/-- The row of a group and the rows of its members. -/
def groupFocus (k : Uuid) : Focus (engine pg) (Option GroupRow × List MemberRow) where
  key := .group k
  see db := (db.groups.find? k, db.members.rows.filter fun m => m.groupID = k)
  act
    | .putGroup r, b => if k = r.id then (some r, b.2) else b
    | .dropGroup g, b => if k = g then (none, []) else b
    | .putMember m, b =>
      if m.groupID = k then (b.1, Table.overwrite MemberRow.key m b.2) else b
    | .dropMember m, b => if m.groupID = k then (b.1, b.2.filter fun x => x.key ≠ m.key) else b
    | _, b => b
  see_apply db w := by
    cases w with
    | putGroup r => by_cases h : k = r.id <;> simp [engine, Write.apply, h]
    | dropGroup g =>
      by_cases h : k = g
      · subst h
        simp [engine, Write.apply, Table.filter]
      · have hm := Table.filter_filter_of_imp (p := fun m : MemberRow => m.groupID = k)
          (q := fun m => m.groupID ≠ g) (by
            intro m hm
            simp only [decide_eq_true_eq] at hm ⊢
            exact hm ▸ h) db.members.rows
        simp only [engine, Write.apply, Table.filter, hm, Table.find?_remove, h, if_false]
    | putMember m =>
      have hp : ∀ x : MemberRow, x.key = m.key →
          decide (x.groupID = k) = decide (m.groupID = k) := by
        intro x hx
        simp only [MemberRow.key, Prod.mk.injEq] at hx
        rw [hx.1]
      by_cases h : m.groupID = k <;>
        simp [engine, Write.apply, Table.put, Table.filter_overwrite hp, h]
    | dropMember m =>
      by_cases h : m.groupID = k
      · simp only [engine, Write.apply, Table.remove, Table.filter, h, if_true]
        rw [List.filter_comm]
      · have hm := Table.filter_filter_of_imp (p := fun x : MemberRow => x.groupID = k)
          (q := fun x => x.key ≠ m.key) (by
            intro x hx
            simp only [decide_eq_true_eq, MemberRow.key, ne_eq, Prod.mk.injEq, not_and] at hx ⊢
            exact fun he => (h (he.symm.trans hx)).elim) db.members.rows
        simp only [engine, Write.apply, Table.remove, Table.filter, hm, h, if_false]
    | _ => rfl
  act_other w b h := by cases w <;> simp_all [engine, Write.keys, eq_comm]

variable {pg} {db : Db} {ws : List Write}

theorem group_other {k : Uuid} (h : .group k ∉ (engine pg).keysOf ws) :
    ((engine pg).applyAll db ws).groups.find? k = db.groups.find? k ∧
      ((engine pg).applyAll db ws).membersOf k = db.membersOf k := by
  have hsee := (groupFocus pg k).see_applyAll_other db h
  simp only [groupFocus, Prod.mk.injEq] at hsee
  exact ⟨hsee.1, by rw [Db.membersOf, Db.membersOf, hsee.2]⟩

/-- Writes of other keys leave an image as it is. -/
theorem image_other {t : Target} (h : t.key ∉ (engine pg).keysOf ws) :
    ((engine pg).applyAll db ws).image t = db.image t := by
  cases t with
  | user k =>
    have hsee := (userFocus pg k).see_applyAll_other db h
    simp only [userFocus] at hsee
    simp only [image_user, hsee]
  | group k =>
    simp only [Db.image, Db.groupImage, (group_other h).1, (group_other h).2]

theorem owner_other {k : Uuid} (h : .group k ∉ (engine pg).keysOf ws) :
    ((engine pg).applyAll db ws).owner k = db.owner k := by
  rw [Db.owner, (group_other h).1, Db.owner]

variable {log : List (Commit Stmt.Rows Write Env)} {n : Nat} {k : Uuid}

theorem user_dbAt (h : ∀ c ∈ log.drop n, .user k ∉ (engine pg).keysOf c.writes) :
    ((engine pg).dbAt db log n).users.find? k = ((engine pg).current db log).users.find? k :=
  (userFocus pg k).see_dbAt db h

theorem group_dbAt_take {p : Nat} (hn : n ≤ p)
    (h : ∀ c ∈ (log.take p).drop n, .group k ∉ (engine pg).keysOf c.writes) :
    ((engine pg).dbAt db log n).groups.find? k = ((engine pg).dbAt db log p).groups.find? k := by
  have hsee := (groupFocus pg k).see_dbAt_take db hn h
  simp only [groupFocus, Prod.mk.injEq] at hsee
  exact hsee.1

theorem group_view (db : Db)
    (h : ∀ c ∈ log.drop n, .group k ∉ (engine pg).keysOf c.writes)
    (hist : List (Record Stmt.Rows Write Env)) :
    ((engine pg).view ((engine pg).dbAt db log n) hist).groups.find? k =
        ((engine pg).view ((engine pg).current db log) hist).groups.find? k ∧
      ((engine pg).view ((engine pg).dbAt db log n) hist).membersOf k =
        ((engine pg).view ((engine pg).current db log) hist).membersOf k := by
  have hsee := (groupFocus pg k).see_view db h hist
  simp only [groupFocus, Prod.mk.injEq] at hsee
  exact ⟨hsee.1, by rw [Db.membersOf, Db.membersOf, hsee.2]⟩

end Scimage.Store
