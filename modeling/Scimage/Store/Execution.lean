import Scimage.Store.Mutation
import Scimage.Store.Image

/-! What a statement that succeeded found and wrote. -/
namespace Scimage.Store

open Txn Engine

/-! ### Statements -/

section Statements

variable {pg : Postgres} {now : Time} {env : Env} {tenantID id : String} {snap cur : Db}
  {ws : List Write} {k : Uuid}

theorem parse_of_parseID (h : parseID id = .ok k) : Uuid.parse id = some k := by
  unfold parseID at h
  cases hp : Uuid.parse id <;> simp_all

/-- A user's row as the tenant that owns it sees it. -/
theorem userOf_eq_some {db : Db} {r : UserRow} : db.userOf tenantID k = some r ↔
    db.users.find? k = some r ∧ r.tenantID = tenantID := by
  simp [Db.userOf, Option.filter_eq_some_iff]

theorem groupOf_eq_some {db : Db} {r : GroupRow} : db.groupOf tenantID k = some r ↔
    db.groups.find? k = some r ∧ r.tenantID = tenantID := by
  simp [Db.groupOf, Option.filter_eq_some_iff]

theorem insertUser_ok {u created : User}
    (h : execInsertUser pg now env tenantID u cur = .ok (created, ws)) :
    ∃ r : UserRow, created = scanUser r ∧ ws = [.putUser r] ∧ r.id = env.uuid ∧
      r.updatedAt = now ∧ cur.users.find? env.uuid = none := by
  unfold execInsertUser at h
  split at h
  · simp at h
  · split at h
    · simp at h
    · rename_i hfind
      dsimp only at h
      split at h
      · simp at h
      · simp only [Except.ok.injEq, Prod.mk.injEq] at h
        exact ⟨_, h.1.symm, h.2.symm, rfl, rfl, by simpa using hfind⟩

theorem changeUser_ok {set : UserRow → UserRow} {ch : Change}
    (h : execChangeUser pg tenantID k set snap cur = .ok (some ch, ws)) :
    ∃ b c, snap.userOf tenantID k = some b ∧ cur.userOf tenantID k = some c ∧
      ch = ⟨scanUser b, scanUser (set c)⟩ ∧ ws = [.putUser (set c)] := by
  unfold execChangeUser at h
  split at h
  · rename_i b c hb hc
    split at h
    · simp at h
    · simp only [Except.ok.injEq, Prod.mk.injEq, Option.some.injEq] at h
      exact ⟨b, c, hb, hc, h.1.symm, h.2.symm⟩
  · simp at h

theorem insertGroup_ok {g created : Group}
    (h : execInsertGroup pg now env tenantID g cur = .ok (created, ws)) :
    ∃ r : GroupRow, created = scanGroup r ∧ ws = [.putGroup r] ∧ r.id = env.uuid ∧
      r.tenantID = tenantID ∧ r.updatedAt = now ∧ cur.groups.find? env.uuid = none := by
  unfold execInsertGroup at h
  simp only at h
  split at h
  · simp at h
  · rename_i hfind
    split at h
    · simp at h
    · simp only [Except.ok.injEq, Prod.mk.injEq] at h
      exact ⟨_, h.1.symm, h.2.symm, rfl, rfl, rfl, by simpa using hfind⟩

theorem selectGroup_ok {g : Group}
    (h : execSelectGroup tenantID id cur = .ok (some g, ws)) :
    ∃ k r, Uuid.parse id = some k ∧ cur.groupOf tenantID k = some r ∧ g = scanGroup r ∧
      ws = [] := by
  unfold execSelectGroup at h
  split at h
  · simp at h
  · rename_i k hk
    simp only [Except.ok.injEq, Prod.mk.injEq, Option.map_eq_some_iff] at h
    obtain ⟨⟨r, hr, hg⟩, hw⟩ := h
    exact ⟨k, r, parse_of_parseID hk, hr, hg.symm, hw.symm⟩

theorem selectMembers_ok {members : List String}
    (hk : Uuid.parse id = some k) (h : execSelectMembers id cur = .ok (members, ws)) :
    members = cur.membersOf k ∧ ws = [] := by
  simp only [execSelectMembers, parseID, hk, Except.ok.injEq, Prod.mk.injEq] at h
  exact ⟨h.1.symm, h.2.symm⟩

theorem updateGroup_ok {g after : Group} (hk : Uuid.parse id = some k)
    (h : execUpdateGroup pg now tenantID id g snap cur = .ok (some after, ws)) :
    ∃ c r : GroupRow, after = scanGroup r ∧ ws = [.putGroup r] ∧ r.id = k ∧
      cur.groupOf tenantID k = some c ∧ r.tenantID = c.tenantID ∧ r.updatedAt = now := by
  simp only [execUpdateGroup, parseID, hk] at h
  split at h
  · rename_i c _ hc
    split at h
    · simp at h
    · simp only [Except.ok.injEq, Prod.mk.injEq, Option.some.injEq] at h
      have hid : c.id = k := Relational.Table.find?_key (groupOf_eq_some.mp hc).1
      exact ⟨c, _, h.1.symm, h.2.symm, hid, hc, rfl, rfl⟩
  · simp at h

theorem deleteGroup_ok {n : Nat} (hk : Uuid.parse id = some k)
    (h : execDeleteGroup tenantID id snap cur = .ok (n, ws)) :
    ws = [.dropGroup k] ∨
      ws = [] ∧ (snap.groupOf tenantID k = none ∨ cur.groupOf tenantID k = none) := by
  simp only [execDeleteGroup, parseID, hk] at h
  split at h
  · simp only [Except.ok.injEq, Prod.mk.injEq] at h
    exact Or.inl h.2.symm
  · rename_i hnone
    simp only [Except.ok.injEq, Prod.mk.injEq] at h
    refine Or.inr ⟨h.2.symm, ?_⟩
    by_contra hcon
    rw [not_or, ← ne_eq, ← ne_eq, Option.ne_none_iff_exists', Option.ne_none_iff_exists'] at hcon
    obtain ⟨⟨a, ha⟩, b, hb⟩ := hcon
    exact hnone a b ha hb

/-- A write of the members of one group. -/
def Write.memberOf (k : Uuid) : Write → Prop
  | .putMember m | .dropMember m => m.groupID = k
  | _ => False

theorem clearMembers_ok {n : Nat} (hk : Uuid.parse id = some k)
    (h : execClearMembers id cur = .ok (n, ws)) : ∀ w ∈ ws, w.memberOf k := by
  simp only [execClearMembers, parseID, hk, Except.ok.injEq, Prod.mk.injEq] at h
  rw [← h.2]
  intro w hw
  obtain ⟨m, hm, rfl⟩ := List.mem_map.mp hw
  simpa [Write.memberOf] using (List.mem_filter.mp hm).2

theorem addMembers_ok {n : Nat} {ids : List String} (hk : Uuid.parse id = some k)
    (h : execAddMembers now id tenantID ids cur = .ok (n, ws)) : ∀ w ∈ ws, w.memberOf k := by
  unfold execAddMembers at h
  split at h
  · rename_i k' _ hk' _
    obtain rfl : k = k' := by simpa [parseID, hk] using hk'
    dsimp only at h
    split at h
    · simp at h
    · split at h
      · simp at h
      · simp only [Except.ok.injEq, Prod.mk.injEq] at h
        rw [← h.2]
        intro w hw
        obtain ⟨m, hm, rfl⟩ := List.mem_map.mp hw
        obtain ⟨u, _, rfl⟩ := List.mem_map.mp hm
        rfl
  · simp at h
  · simp at h

theorem memberOf_frame (pg : Postgres) {ws : List Write} (h : ∀ w ∈ ws, w.memberOf k) (d : Db) :
    ((engine pg).applyAll d ws).users = d.users ∧
      ((engine pg).applyAll d ws).groups = d.groups ∧
      ((engine pg).applyAll d ws).attributes = d.attributes := by
  induction ws generalizing d with
  | nil => exact ⟨rfl, rfl, rfl⟩
  | cons w ws ih =>
    rw [Engine.applyAll_cons]
    obtain ⟨husers, hgroups, hattributes⟩ := ih (fun x hx => h x (List.mem_cons_of_mem _ hx))
      ((engine pg).apply d w)
    have hw := h w List.mem_cons_self
    rw [husers, hgroups, hattributes]
    cases w <;> first | exact ⟨rfl, rfl, rfl⟩ | exact hw.elim

theorem nullable_of_parse (hk : Uuid.parse id = some k) : nullable id = some id := by
  unfold nullable
  split
  · subst id
    simp [show Uuid.parse "" = none by decide] at hk
  · rfl

theorem insertAudit_ok {rec : AuditRecord} {resource : Resource} {action : Action}
    {result : Outcome} {detail : String} {before after : Option Image}
    (hk : Uuid.parse id = some k)
    (h : execInsertAudit now env rec resource action id result detail before after = .ok ((), ws)) :
    ws = [.addAudit (auditEntry now env.serial rec resource action (some k) result detail before
      after)] := by
  simp only [execInsertAudit, nullable_of_parse hk, parseTarget, parseID, hk, Except.map,
    Except.ok.injEq, Prod.mk.injEq, true_and] at h
  exact h.symm

theorem insertDelivery_ok {eventType : EventType} {payload : Payload}
    (hk : Uuid.parse id = some k)
    (h : execInsertDelivery now env tenantID eventType id payload = .ok ((), ws)) :
    ws = [.addDelivery (newDelivery now env.serial tenantID eventType k payload)] := by
  simp only [execInsertDelivery, parseID, hk, Except.ok.injEq, Prod.mk.injEq, true_and] at h
  exact h.symm

end Statements

/-! ### Histories -/

abbrev History := List (Record Stmt.Rows Write Env)

section Histories

variable {pg : Postgres} {s : Store} {db : Db} {R : Engine.Condition Stmt.Rows Write Env}
  {log : List (Commit Stmt.Rows Write Env)} {now : Time} {prior hist : History}
  {id tenantID : String} {k : Uuid}

theorem recorded_writes {rec : AuditRecord} {resource : Resource} {action : Action}
    {before after : Option Image} {eventType : EventType} {payload : Payload}
    (hk : Uuid.parse id = some k) (hs : (engine pg).Sound db R log now prior hist)
    (hm : hist.map Record.entry =
      s.recorded rec tenantID resource action id before after eventType payload) :
    ∃ m n, writesOf hist =
      .addAudit (auditEntry now m rec resource action (some k) .success "" before after) ::
        (if s.changeEvents then [newDelivery now n tenantID eventType k payload] else []).map
          Write.addDelivery := by
  obtain ⟨ws, env, snap, pos, rest, rfl, hrest⟩ := map_entry_eq_cons.mp hm
  obtain ⟨ha, hs⟩ := hs
  have hws : ws = [.addAudit (auditEntry now env.serial rec resource action (some k) .success ""
    before after)] := insertAudit_ok hk ha.ran
  subst hws
  unfold queued at hrest
  split at hrest
  · rename_i hc
    obtain ⟨ws', env', snap', pos', rest, rfl, hnil⟩ := map_entry_eq_cons.mp hrest
    have hws' : ws' = [.addDelivery (newDelivery now env'.serial tenantID eventType k payload)] :=
      insertDelivery_ok hk hs.1.ran
    subst hws'
    obtain rfl := List.map_eq_nil_iff.mp hnil
    exact ⟨env.serial, env'.serial, by simp [hc]⟩
  · rename_i hc
    obtain rfl := List.map_eq_nil_iff.mp hrest
    exact ⟨env.serial, 0, by simp [hc]⟩

theorem replaced_writes {memberIDs : List String} {n : Nat} (hk : Uuid.parse id = some k)
    (hs : (engine pg).Sound db R log now prior hist)
    (hm : hist.map Record.entry = replacedHistory tenantID id memberIDs n) :
    ∀ w ∈ writesOf hist, w.memberOf k := by
  obtain ⟨ws, env, snap, pos, rest, rfl, hrest⟩ := map_entry_eq_cons.mp hm
  obtain ⟨hc, hs⟩ := hs
  have hclear : ∀ w ∈ ws, w.memberOf k := clearMembers_ok hk hc.ran
  split at hrest
  · obtain rfl := List.map_eq_nil_iff.mp hrest
    simpa using hclear
  · obtain ⟨ws', env', snap', pos', rest, rfl, hnil⟩ := map_entry_eq_cons.mp hrest
    have hadd : ∀ w ∈ ws', w.memberOf k := addMembers_ok hk hs.1.ran
    obtain rfl := List.map_eq_nil_iff.mp hnil
    intro w hw
    simp only [writesOf_cons, writesOf_nil, List.append_nil, List.mem_append] at hw
    exact hw.elim (hclear w) (hadd w)

end Histories

end Scimage.Store
