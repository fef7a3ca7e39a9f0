import Scimage.Scim.Listing

/-! What a list shows of a resource is what the resource is answered with alone. -/
namespace Scimage.Scim

open Txn Engine
open Store (engine Db Env DbError StoreWorld Postgres UserRow GroupRow scanUser)
open Json (Value)

variable {pg : Postgres} {h : Handler} {db : Db} {r : Request} {q : ListQuery} {p : Page}
  {supply : Nat → Supply Env DbError}

theorem one_le_startIndexOf (s : String) : 1 ≤ startIndexOf s := by
  unfold startIndexOf
  split
  · split <;> omega
  · exact Int.le_refl 1

theorem countOf_nonneg (s : String) : 0 ≤ countOf s := by
  unfold countOf
  split
  · exact Int.le_max_right _ _
  · decide

/-- The resources of a page are rows of the table. -/
theorem mem_pageOf {ρ : Type} {rows : List ρ} {resource : ρ → Value} {i n : Nat} {v : Value}
    (hv : v ∈ (pageOf rows resource i n).resources) : ∃ x ∈ rows, v = resource x := by
  obtain ⟨x, hx, rfl⟩ := List.mem_map.mp hv
  exact ⟨x, List.mem_of_mem_drop (List.mem_of_mem_take hx), rfl⟩

theorem listed_user (hq : Quiet supply) (hp : answer pg supply (h.list r q) db = .ok p) {v : Value}
    (hv : v ∈ p.resources) : ∃ x : UserRow, db.userAt r.tenantID x.id.text = some x ∧
      v = h.userResource r (scanUser x) := by
  cases hf : parseFilter h.unicode q.filter with
  | error e =>
    have hrefused : answer pg supply (h.list r q) db = .error (invalidFilter e) := by
      unfold answer Handler.list
      rw [hf]
      rfl
    cases hrefused.symm.trans hp
  | ok f =>
    obtain ⟨j, hj⟩ := Int.eq_ofNat_of_zero_le (Int.le_trans (by decide) (one_le_startIndexOf q.startIndex))
    obtain ⟨n, hn⟩ := Int.eq_ofNat_of_zero_le (countOf_nonneg q.count)
    have hone := one_le_startIndexOf q.startIndex
    have hpage := answer_users pg db (r := r) hf hq (by omega) hj hn
    obtain rfl := Except.ok.inj (hpage.symm.trans hp)
    obtain ⟨x, hx, rfl⟩ := mem_pageOf hv
    have hwhere := (Store.usersInOrder_sorted pg db r.tenantID f).1.mem_iff.mp hx
    obtain ⟨hrow, hclause⟩ := List.mem_filter.mp hwhere
    refine ⟨x, Store.userAt_eq_some.mpr ⟨Store.Uuid.parse_text x.id,
      Relational.Table.find?_of_mem hrow, ?_⟩, rfl⟩
    simp only [Store.UserFilter.clause, decide_eq_true_eq] at hclause
    exact hclause.1

theorem listed_group (hq : Quiet supply) (hp : answer pg supply (h.listGroups r q) db = .ok p) {v : Value}
    (hv : v ∈ p.resources) : ∃ x : GroupRow, db.groupAt r.tenantID x.id.text = some x ∧
      v = h.groupResource r (db.groupWithMembers x) := by
  cases hf : parseGroupFilter h.unicode q.filter with
  | error e =>
    have hrefused : answer pg supply (h.listGroups r q) db = .error (invalidFilter e) := by
      unfold answer Handler.listGroups
      rw [hf]
      rfl
    cases hrefused.symm.trans hp
  | ok f =>
    obtain ⟨j, hj⟩ := Int.eq_ofNat_of_zero_le (Int.le_trans (by decide) (one_le_startIndexOf q.startIndex))
    obtain ⟨n, hn⟩ := Int.eq_ofNat_of_zero_le (countOf_nonneg q.count)
    have hone := one_le_startIndexOf q.startIndex
    have hpage := answer_groups pg db (r := r) hf hq (by omega) hj hn
    obtain rfl := Except.ok.inj (hpage.symm.trans hp)
    obtain ⟨x, hx, rfl⟩ := mem_pageOf hv
    have hwhere := (Store.groupsInOrder_sorted pg db r.tenantID f).1.mem_iff.mp hx
    obtain ⟨hrow, hclause⟩ := List.mem_filter.mp hwhere
    refine ⟨x, Store.groupAt_eq_some.mpr ⟨Store.Uuid.parse_text x.id,
      Relational.Table.find?_of_mem hrow, ?_⟩, rfl⟩
    simp only [Store.GroupFilter.clause, decide_eq_true_eq] at hclause
    exact hclause.1

theorem serve_get (hq : Quiet supply) {x : UserRow} (hx : db.userAt r.tenantID r.id = some x) :
    serve pg supply (h.get r) db = (writeJSON 200 (h.userResource r (scanUser x)), db) := by
  have hw : (World.start db : StoreWorld).Idle db := ⟨rfl, rfl⟩
  have hserve : (serve pg supply (h.get r) db).1 = writeJSON 200 (h.userResource r (scanUser x)) ∧
      (serve pg supply (h.get r) db).2 = db := by
    refine leads_serve (Q := fun resp d => resp = writeJSON 200 (h.userResource r (scanUser x)) ∧ d = db) ?_
    unfold Handler.get
    refine leads_bind.mpr (leads_refusedWith.mpr (Store.leads_getUser hw ?_ ?_))
    · intro y w' hy hidle
      obtain rfl := Option.some.inj (hx.symm.trans hy)
      rw [leads_pure]
      exact ⟨rfl, hidle.1⟩
    · intro e w' hnot hidle
      cases hx.symm.trans (hnot hq).2
  exact Prod.ext hserve.1 hserve.2

theorem serve_getGroup (hq : Quiet supply) {x : GroupRow} (hx : db.groupAt r.tenantID r.id = some x) :
    serve pg supply (h.getGroup r) db =
      (writeJSON 200 (h.groupResource r (db.groupWithMembers x)), db) := by
  have hw : (World.start db : StoreWorld).Idle db := ⟨rfl, rfl⟩
  have hmembers : db.membersAt r.id = db.membersOf x.id := by
    rw [Db.membersAt, (Store.groupAt_eq_some.mp hx).1]
    rfl
  have hserve : (serve pg supply (h.getGroup r) db).1 =
        writeJSON 200 (h.groupResource r (db.groupWithMembers x)) ∧
      (serve pg supply (h.getGroup r) db).2 = db := by
    refine leads_serve (Q := fun resp d =>
      resp = writeJSON 200 (h.groupResource r (db.groupWithMembers x)) ∧ d = db) ?_
    unfold Handler.getGroup
    refine leads_bind.mpr (leads_refusedWith.mpr (Store.leads_getGroup hw ?_ ?_))
    · intro y w' hy hidle
      obtain rfl := Option.some.inj (hx.symm.trans hy)
      rw [leads_pure, hmembers]
      exact ⟨rfl, hidle.1⟩
    · intro e w' hnot hidle
      cases hx.symm.trans (hnot hq).2
  exact Prod.ext hserve.1 hserve.2

end Scimage.Scim
