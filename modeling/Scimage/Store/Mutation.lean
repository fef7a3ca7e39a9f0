import Scimage.Store.User
import Scimage.Store.Group
import Mathlib.Data.Fintype.Basic

/-! The six mutations of the directory as one family of calls. -/
namespace Scimage.Store

open Txn

inductive Mutation where
  | createUser (tenantID : String) (u : User) (rec : AuditRecord)
  | updateUser (tenantID id : String) (u : User) (rec : AuditRecord)
  | deactivateUser (tenantID id : String) (rec : AuditRecord)
  | createGroup (tenantID : String) (g : Group) (rec : AuditRecord)
  | updateGroup (tenantID id : String) (g : Group) (rec : AuditRecord)
  | deleteGroup (tenantID id : String) (rec : AuditRecord)

namespace Mutation

def tenantID : Mutation → String
  | .createUser t _ _ | .updateUser t _ _ _ | .deactivateUser t _ _ => t
  | .createGroup t _ _ | .updateGroup t _ _ _ | .deleteGroup t _ _ => t

/-- Who calls. -/
def caller : Mutation → AuditRecord
  | .createUser _ _ rec | .updateUser _ _ _ rec | .deactivateUser _ _ rec => rec
  | .createGroup _ _ rec | .updateGroup _ _ _ rec | .deleteGroup _ _ rec => rec

def call (s : Store) : Mutation → Call Unit
  | .createUser t u rec => do let _ ← s.createUser t u rec
  | .updateUser t id u rec => do let _ ← s.updateUser t id u rec
  | .deactivateUser t id rec => do let _ ← s.deactivateUser t id rec
  | .createGroup t g rec => do let _ ← s.createGroup t g rec
  | .updateGroup t id g rec => do let _ ← s.updateGroup t id g rec
  | .deleteGroup t id rec => do let _ ← s.deleteGroup t id rec

/-- What the statements of a mutation and their answers are when it commits. -/
inductive History (s : Store) : Mutation → List (Entry Stmt.Rows) → Prop where
  | createUser {t u rec} (created : User) :
      History s (.createUser t u rec) (createUserHistory s t u rec created)
  | updateUser {t id u rec} (ch : Change) :
      History s (.updateUser t id u rec) (updateUserHistory s t id u rec ch)
  | deactivateUser {t id rec} (ch : Change) :
      History s (.deactivateUser t id rec) (deactivateUserHistory s t id rec ch)
  | createGroup {t g rec} (created : Group) (n : Nat) (members : List String) :
      History s (.createGroup t g rec) (createGroupHistory s t g rec created n members)
  | updateGroup {t id g rec} (before : Group) (members : List String) (after : Group) (n : Nat)
      (newMembers : List String) : History s (.updateGroup t id g rec)
        (updateGroupHistory s t id g rec before members after n newMembers)
  | deleteGroup {t id rec} (before : Group) (members : List String) (n : Nat) (clock : Time) :
      History s (.deleteGroup t id rec) (deleteGroupHistory s t id rec before members n clock)

variable {P : List (Entry Stmt.Rows) → Prop} {s : Store}

theorem discard_wp {c : Call α} (h : wp (mutations P) c.run Settled .idle) :
    wp (mutations P) (do let _ ← c : Call Unit).run Settled .idle := by
  rw [ExceptT.run_bind, wp_bind]
  refine wp_mono ?_ h
  rintro (e | a) st hst <;> exact hst

/-- A mutation commits one of its histories or nothing, whatever the database answers. -/
theorem call_wp (m : Mutation) (hP : ∀ h, m.History s h → P h) :
    wp (mutations P) (m.call s).run Settled .idle := by
  cases m with
  | createUser t u rec => exact discard_wp (createUser_wp fun ch => hP _ (.createUser ch))
  | updateUser t id u rec => exact discard_wp (updateUser_wp fun ch => hP _ (.updateUser ch))
  | deactivateUser t id rec =>
    exact discard_wp (deactivateUser_wp fun ch => hP _ (.deactivateUser ch))
  | createGroup t g rec =>
    exact discard_wp (createGroup_wp fun c n ms => hP _ (.createGroup c n ms))
  | updateGroup t id g rec =>
    exact discard_wp (updateGroup_wp fun b ms a n nms => hP _ (.updateGroup b ms a n nms))
  | deleteGroup t id rec =>
    exact discard_wp (deleteGroup_wp fun b ms n t => hP _ (.deleteGroup b ms n t))

end Mutation

/-! ### Values for runs on fixed inputs -/

/-- A PostgreSQL that neither folds case nor normalises JSON. -/
def plainText : Postgres := ⟨id, some⟩

inductive Client where
  | first
  | second
  | third
  deriving DecidableEq

instance : Fintype Client := ⟨{.first, .second, .third}, fun c => by cases c <;> simp⟩

def newUser (userName : String) : User :=
  ⟨"", userName, none, none, none, none, true, 0, 0, ""⟩

end Scimage.Store
