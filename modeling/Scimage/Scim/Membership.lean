import Scimage.Scim.Lookup

/-! The members of the groups of a tenant, over runs. -/
namespace Scimage.Scim

open Txn Engine
open Store (engine Db Env DbError Postgres Uuid MemberRow Canonical Members outcome execInsertGroup
  execUpdateGroup)

variable {pg : Postgres} {U : Unicode} {T : TimeText} {db db' : Db}

/-- A row of `group_members` joins a group and a user of its own tenant. -/
structure Joins (db : Db) (m : MemberRow) : Prop where
  group : ∃ g, db.groups.find? m.groupID = some g ∧ g.tenantID = m.tenantID
  user : ∃ u, db.users.find? m.userID = some u ∧ u.tenantID = m.tenantID

theorem Joins.congr {m : MemberRow} (h : Joins db m) (husers : db'.users = db.users)
    (hgroups : db'.groups = db.groups) : Joins db' m := by
  refine ⟨?_, ?_⟩
  · rw [hgroups]
    exact h.group
  · rw [husers]
    exact h.user

/-- A step breaks up no row. -/
theorem effect_joins (hjoins : ∀ m ∈ db.members.rows, Joins db m) (h : Effect pg U db db') :
    ∀ m ∈ db'.members.rows, Joins db' m := by
  cases h with
  | nothing h =>
    obtain ⟨husers, hgroups, hmembers, -⟩ := h
    intro m hm
    exact (hjoins m (hmembers ▸ hm)).congr husers hgroups
  | user row hdb howner =>
    obtain ⟨husers, hgroups, hmembers, -⟩ := hdb
    intro m hm
    have hold := hjoins m (hmembers ▸ hm)
    refine ⟨?_, ?_⟩
    · rw [hgroups]
      exact hold.group
    · obtain ⟨u, hu, htenant⟩ := hold.user
      rw [husers, Relational.Table.find?_put]
      by_cases hrow : m.userID = row.id
      · rw [if_pos hrow]
        refine ⟨row, rfl, ?_⟩
        rw [← howner u (hrow ▸ hu), htenant]
      · rw [if_neg hrow]
        exact ⟨u, hu, htenant⟩
  | group row id ids now v hid hfree hrow hex hdb =>
    obtain ⟨husers, hgroups, hmembers, -⟩ := hdb
    obtain ⟨husers', hgroups', -⟩ := Store.exchanged_frame hid hex
    obtain ⟨ks, -, -, hrows⟩ := Store.exchanged_rows hid hex
    intro m hm
    rw [hmembers, hrows] at hm
    rcases hm with hm | ⟨hm, hother⟩
    · obtain ⟨u, hu, rfl⟩ := List.mem_map.mp hm
      obtain ⟨hu, hp⟩ := List.mem_filter.mp hu
      simp only [decide_eq_true_eq] at hp
      refine ⟨⟨row, ?_, rfl⟩, u, ?_, hp.1⟩
      · rw [hgroups, hgroups', Relational.Table.find?_put, if_pos rfl]
      · rw [husers, husers']
        exact Relational.Table.find?_of_mem hu
    · have hold := hjoins m hm
      refine ⟨?_, ?_⟩
      · rw [hgroups, hgroups', Relational.Table.find?_put, if_neg hother]
        exact hold.group
      · rw [husers, husers']
        exact hold.user
  | dropGroup k hdb =>
    obtain ⟨husers, hgroups, hmembers, -⟩ := hdb
    intro m hm
    rw [hmembers] at hm
    obtain ⟨hm, hother⟩ := List.mem_filter.mp hm
    have hold := hjoins m hm
    refine ⟨?_, ?_⟩
    · obtain ⟨g, hg, htenant⟩ := hold.group
      refine ⟨g, ?_, htenant⟩
      rw [hgroups]
      change (db.groups.remove k).find? m.groupID = _
      rw [Relational.Table.find?_remove, if_neg (by simpa using hother)]
      exact hg
    · rw [husers]
      exact hold.user
  | register a ha hdb =>
    obtain ⟨husers, hgroups, hmembers, -⟩ := hdb
    intro m hm
    exact (hjoins m (hmembers ▸ hm)).congr husers hgroups
  | unregister k hdb =>
    obtain ⟨husers, hgroups, hmembers, -⟩ := hdb
    intro m hm
    exact (hjoins m (hmembers ▸ hm)).congr husers hgroups

theorem reachable_joins (h : Reachable pg U T db) : ∀ m ∈ db.members.rows, Joins db m := by
  induction h with
  | empty =>
    intro _ hm
    cases hm
  | step _ hmove ih => exact effect_joins ih (moves_effect hmove)

def staff (members : List String) : Store.Group := ⟨"", none, "staff", members, 0, 0⟩

end Scimage.Scim
