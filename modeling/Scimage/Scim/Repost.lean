import Scimage.Scim.Conflicts
import Scimage.Scim.Readback

/-! A POST that is sent again. -/
namespace Scimage.Scim

open Txn Engine
open Store (engine Db Env DbError StoreWorld Postgres Resource)
open Json (Value)

variable {pg : Postgres} {supply again : Nat → Supply Env DbError} {db : Db} {h : Handler} {r : Request}
  {resource : Resource} {x : Wanted} {w : StoreWorld} {v : Value}

/-- Sending the POST to this database is answered as a conflict and changes nothing but the audit log. -/
def Reposted (pg : Postgres) (h : Handler) (r : Request) (resource : Resource) (db : Db) : Prop :=
  ∀ again, Quiet again → (∀ n, db.users.find? (again n).env.uuid = none) →
    (∀ n, db.groups.find? (again n).env.uuid = none) →
    Conflicted r resource .post db (serve pg again (h.mutate r resource .post) db).1
      (serve pg again (h.mutate r resource .post) db).2

theorem reposted_of_clash (hwants : Wants pg h db r resource .post x)
    (hname : NameClash pg db r.tenantID x resource) : Reposted pg h r resource db := by
  intro again hq husers hgroups
  refine leads_serve (Q := fun resp db' => Conflicted r resource .post db resp db') ?_
  refine leads_mutate_clash hq husers hgroups hwants (Or.inl hname) ⟨rfl, rfl⟩ ?_
  intro _ _ _ _ _ hclash hreply hother
  exact (conflicted_iff hclash hreply hother).mpr hname

/-- The row that was inserted has the name that is asked for again. -/
theorem create_reposted (hw : w.Idle db) : (engine pg).Leads supply (h.create r)
    (fun _ w => Reposted pg h r .user w.db) (fun _ _ => True) w := by
  refine leads_create hw ?_ fun _ _ _ _ _ => trivial
  rintro u keys now env created ws db' w' hdecode hx hlogged ⟨rfl, -⟩
  obtain ⟨ext, hext, -, -, rfl, rfl⟩ := Store.execInsertUser_ok hx
  obtain ⟨husers, -, -, hattributes⟩ := SameDirectory.of_logged hlogged
  have hregistry : h.registryOf w'.db r.tenantID = h.registryOf db r.tenantID := by
    simp only [Handler.registryOf, Store.Db.attributesOf, hattributes]
    rfl
  refine reposted_of_clash (.create hdecode rfl (by rw [hregistry]; exact hext)) ?_
  refine ⟨Store.insertedUser now r.tenantID env.uuid
    (h.userRow r (h.registryOf db r.tenantID) u keys) ext, ?_, ?_, rfl, ?_⟩
  · rw [husers]
    exact Relational.Table.mem_put.mpr (Or.inl rfl)
  · exact (Option.some_ne_none _).symm
  · rw [hregistry]
    rfl

theorem createGroup_reposted (hw : w.Idle db) : (engine pg).Leads supply (h.createGroup r)
    (fun _ w => Reposted pg h r .group w.db) (fun _ _ => True) w := by
  refine leads_createGroup hw ?_ fun _ _ _ _ _ => trivial
  rintro g now env created ws v db' w' hdecode hx hex hlogged ⟨rfl, -⟩
  obtain ⟨-, rfl, rfl⟩ := Store.execInsertGroup_ok hx
  obtain ⟨-, hgroups, -⟩ := Store.exchanged_frame (Store.Uuid.parse_text _) hex
  obtain ⟨-, hgroups', -⟩ := SameDirectory.of_logged hlogged
  refine reposted_of_clash (.createGroup hdecode) ?_
  refine ⟨Store.insertedGroup now r.tenantID env.uuid (toStoreGroup g), ?_, ?_, rfl, rfl⟩
  · rw [hgroups', hgroups]
    exact Relational.Table.mem_put.mpr (Or.inl rfl)
  · exact (Option.some_ne_none _).symm

end Scimage.Scim
