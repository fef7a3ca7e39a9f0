import Scimage.Scim.Server

/-! Rows of one tenant: what ties memberships to it, and what other tenants' calls leave of it. -/
namespace Scimage.Scim

open Txn Engine
open Store (Mutation Db Write Env Postgres Stmt engine UserRow GroupRow MemberRow Uuid History
  exec_putUser exec_putGroup exec_mayWrite userFocus groupFocus groupRowFocus)

variable {pg : Postgres} {s : Store} {R : Condition Stmt.Rows Write Env}
  {log : List (Commit Stmt.Rows Write Env)} {db cur V : Db} {now : Time} {hist : History}
  {ws : List Write}

/-- Every membership lies in one tenant: its own, its group's and its user's, who both exist. -/
def Cohesive (db : Db) : Prop :=
  ∀ m ∈ db.members.rows, (∃ g, db.groups.find? m.groupID = some g ∧ g.tenantID = m.tenantID) ∧
    ∃ u, db.users.find? m.userID = some u ∧ u.tenantID = m.tenantID

/-- The rows of a tenant are the same in both. -/
structure SameTenant (tenantID : String) (d d' : Db) : Prop where
  users : ∀ r : UserRow, r.tenantID = tenantID → (r ∈ d'.users.rows ↔ r ∈ d.users.rows)
  groups : ∀ r : GroupRow, r.tenantID = tenantID → (r ∈ d'.groups.rows ↔ r ∈ d.groups.rows)
  members : ∀ r : MemberRow, r.tenantID = tenantID → (r ∈ d'.members.rows ↔ r ∈ d.members.rows)

theorem SameTenant.refl (tenantID : String) (d : Db) : SameTenant tenantID d d :=
  ⟨fun _ _ => Iff.rfl, fun _ _ => Iff.rfl, fun _ _ => Iff.rfl⟩

theorem SameTenant.trans {t : String} {a b c : Db} (h : SameTenant t a b) (h' : SameTenant t b c) :
    SameTenant t a c :=
  ⟨fun r hr => (h'.users r hr).trans (h.users r hr), fun r hr => (h'.groups r hr).trans (h.groups r hr),
    fun r hr => (h'.members r hr).trans (h.members r hr)⟩

/-! ### One write -/

/-- A write that keeps to the tenant `t`, on a database that it finds as `V`. -/
inductive KeepsTo (V : Db) (t : String) : Write → Prop where
  | putUser (r : UserRow) : r.tenantID = t →
      (∀ c, V.users.find? r.id = some c → c.tenantID = t) → KeepsTo V t (.putUser r)
  | putGroup (r : GroupRow) : r.tenantID = t →
      (∀ c, V.groups.find? r.id = some c → c.tenantID = t) → KeepsTo V t (.putGroup r)
  | dropGroup (k : Uuid) (g : GroupRow) : V.groups.find? k = some g → g.tenantID = t →
      KeepsTo V t (.dropGroup k)
  | putMember (m : MemberRow) (g : GroupRow) (u : UserRow) : m.tenantID = t →
      V.groups.find? m.groupID = some g → g.tenantID = t →
      V.users.find? m.userID = some u → u.tenantID = t → KeepsTo V t (.putMember m)
  | dropMember (m : MemberRow) (g : GroupRow) : V.groups.find? m.groupID = some g →
      g.tenantID = t → KeepsTo V t (.dropMember m)
  | record (w : Write) : ¬ w.directory → KeepsTo V t w

variable (pg) in
theorem record_same {w : Write} (hw : ¬ w.directory) (V : Db) :
    ((engine pg).apply V w).users = V.users ∧ ((engine pg).apply V w).groups = V.groups ∧
      ((engine pg).apply V w).members = V.members := by
  cases w <;> first | exact ⟨rfl, rfl, rfl⟩ | exact (hw trivial).elim

theorem KeepsTo.cohesive {t : String} {w : Write} (h : KeepsTo V t w) (hV : Cohesive V) :
    Cohesive ((engine pg).apply V w) := by
  cases h with
  | putUser r hr hkept =>
    intro m hm
    obtain ⟨hg, u, hu, hut⟩ := hV m hm
    refine ⟨hg, ?_⟩
    simp only [engine, Write.apply, Relational.Table.find?_put]
    by_cases hid : m.userID = r.id
    · exact ⟨r, if_pos hid, by rw [hr, ← hkept u (hid ▸ hu), hut]⟩
    · exact ⟨u, by rw [if_neg hid, hu], hut⟩
  | putGroup r hr hkept =>
    intro m hm
    obtain ⟨⟨g, hg, hgt⟩, hu⟩ := hV m hm
    refine ⟨?_, hu⟩
    simp only [engine, Write.apply, Relational.Table.find?_put]
    by_cases hid : m.groupID = r.id
    · exact ⟨r, if_pos hid, by rw [hr, ← hkept g (hid ▸ hg), hgt]⟩
    · exact ⟨g, by rw [if_neg hid, hg], hgt⟩
  | dropGroup k g hg ht =>
    intro m hm
    simp only [engine, Write.apply, Relational.Table.filter, List.mem_filter, decide_eq_true_eq] at hm
    obtain ⟨⟨x, hx, hxt⟩, hu⟩ := hV m hm.1
    refine ⟨⟨x, ?_, hxt⟩, hu⟩
    simp only [engine, Write.apply, Relational.Table.find?_remove, if_neg hm.2, hx]
  | putMember m g u hm hg hgt hu hut =>
    intro x hx
    rcases Relational.Table.mem_put.mp hx with rfl | ⟨hx, -⟩
    · exact ⟨⟨g, hg, hgt.trans hm.symm⟩, u, hu, hut.trans hm.symm⟩
    · exact hV x hx
  | dropMember m g hg hgt =>
    intro x hx
    exact hV x (List.mem_of_mem_filter hx)
  | record w hw =>
    obtain ⟨hu, hg, hm⟩ := record_same pg hw V
    intro m hmem
    rw [hm] at hmem
    rw [hu, hg]
    exact hV m hmem

/-- It leaves the rows of the other tenants as they are. -/
theorem KeepsTo.same {t b : String} {w : Write} (h : KeepsTo V t w) (hV : Cohesive V) (hb : b ≠ t) :
    SameTenant b V ((engine pg).apply V w) := by
  cases h with
  | putUser r hr hkept =>
    refine ⟨fun x hx => ?_, fun _ _ => Iff.rfl, fun _ _ => Iff.rfl⟩
    have hne : x ≠ r := fun he => hb (hx.symm.trans (he ▸ hr))
    constructor
    · intro hmem
      exact ((Relational.Table.mem_put.mp hmem).resolve_left hne).1
    · intro hmem
      refine Relational.Table.mem_put.mpr (Or.inr ⟨hmem, fun hid => ?_⟩)
      exact hb (hx.symm.trans (hkept x (hid ▸ Relational.Table.find?_of_mem hmem)))
  | putGroup r hr hkept =>
    refine ⟨fun _ _ => Iff.rfl, fun x hx => ?_, fun _ _ => Iff.rfl⟩
    have hne : x ≠ r := fun he => hb (hx.symm.trans (he ▸ hr))
    constructor
    · intro hmem
      exact ((Relational.Table.mem_put.mp hmem).resolve_left hne).1
    · intro hmem
      refine Relational.Table.mem_put.mpr (Or.inr ⟨hmem, fun hid => ?_⟩)
      exact hb (hx.symm.trans (hkept x (hid ▸ Relational.Table.find?_of_mem hmem)))
  | dropGroup k g hg ht =>
    refine ⟨fun _ _ => Iff.rfl, fun x hx => ?_, fun x hx => ?_⟩
    · simp only [engine, Write.apply, Relational.Table.remove, Relational.Table.filter,
        List.mem_filter, decide_eq_true_eq, and_iff_left_iff_imp]
      intro hmem hid
      have hfind := Relational.Table.find?_of_mem hmem
      rw [hid, hg] at hfind
      exact hb (hx.symm.trans (Option.some.inj hfind ▸ ht))
    · simp only [engine, Write.apply, Relational.Table.filter, List.mem_filter, decide_eq_true_eq,
        and_iff_left_iff_imp]
      intro hmem hid
      obtain ⟨⟨y, hy, hyt⟩, -⟩ := hV x hmem
      rw [hid, hg] at hy
      obtain rfl := Option.some.inj hy
      exact hb (hx.symm.trans (hyt.symm.trans ht))
  | putMember m g u hm hg hgt hu hut =>
    refine ⟨fun _ _ => Iff.rfl, fun _ _ => Iff.rfl, fun x hx => ?_⟩
    have hne : x ≠ m := fun he => hb (hx.symm.trans (he ▸ hm))
    constructor
    · intro hmem
      exact ((Relational.Table.mem_put.mp hmem).resolve_left hne).1
    · intro hmem
      refine Relational.Table.mem_put.mpr (Or.inr ⟨hmem, fun hid => ?_⟩)
      obtain ⟨⟨y, hy, hyt⟩, -⟩ := hV x hmem
      rw [(Prod.mk.inj hid).1, hg] at hy
      obtain rfl := Option.some.inj hy
      exact hb (hx.symm.trans (hyt.symm.trans hgt))
  | dropMember m g hg hgt =>
    refine ⟨fun _ _ => Iff.rfl, fun _ _ => Iff.rfl, fun x hx => ?_⟩
    simp only [engine, Write.apply, Relational.Table.remove, Relational.Table.filter, List.mem_filter,
      decide_eq_true_eq, and_iff_left_iff_imp]
    intro hmem hid
    obtain ⟨⟨y, hy, hyt⟩, -⟩ := hV x hmem
    rw [(Prod.mk.inj hid).1, hg] at hy
    obtain rfl := Option.some.inj hy
    exact hb (hx.symm.trans (hyt.symm.trans hgt))
  | record w hw =>
    obtain ⟨hu, hg, hm⟩ := record_same pg hw V
    exact ⟨fun _ _ => by rw [hu], fun _ _ => by rw [hg], fun _ _ => by rw [hm]⟩

theorem KeepsTo.congr {t : String} {w : Write} {V' : Db} (h : KeepsTo V t w) (hu : V'.users = V.users)
    (hg : V'.groups = V.groups) : KeepsTo V' t w := by
  cases h with
  | putUser r hr hkept => exact .putUser r hr (by rwa [hu])
  | putGroup r hr hkept => exact .putGroup r hr (by rwa [hg])
  | dropGroup k g hfind ht => exact .dropGroup k g (by rwa [hg]) ht
  | putMember m g u hm hfind hgt hfind' hut =>
    exact .putMember m g u hm (by rwa [hg]) hgt (by rwa [hu]) hut
  | dropMember m g hfind hgt => exact .dropMember m g (by rwa [hg]) hgt
  | record w hw => exact .record w hw

/-- What a statement writes: one row, or memberships of one group. -/
theorem keeps_all {t : String} (hws : ∀ w ∈ ws, KeepsTo V t w)
    (hshape : ws.length ≤ 1 ∨ ∃ k, ∀ w ∈ ws, w.memberOf k) (hV : Cohesive V) :
    Cohesive ((engine pg).applyAll V ws) ∧
      ∀ b, b ≠ t → SameTenant b V ((engine pg).applyAll V ws) := by
  rcases hshape with hone | ⟨k, hmembers⟩
  · cases ws with
    | nil => exact ⟨hV, fun b _ => .refl b V⟩
    | cons w rest =>
      obtain rfl : rest = [] := List.length_eq_zero_iff.mp (by simpa using hone)
      have hw := hws w List.mem_cons_self
      rw [Engine.applyAll_cons, Engine.applyAll_nil]
      exact ⟨hw.cohesive hV, fun b hb => hw.same hV hb⟩
  · induction ws generalizing V with
    | nil => exact ⟨hV, fun b _ => .refl b V⟩
    | cons w ws ih =>
      have hw := hws w List.mem_cons_self
      have hone : ∀ x ∈ [w], x.memberOf k := fun x hx => by
        obtain rfl := List.mem_singleton.mp hx
        exact hmembers x List.mem_cons_self
      have hframe := Store.memberOf_frame pg hone V
      obtain ⟨hc, hsame⟩ := ih (V := (engine pg).apply V w)
        (fun x hx => (hws x (List.mem_cons_of_mem _ hx)).congr hframe.1 hframe.2.1)
        (hw.cohesive hV) fun x hx => hmembers x (List.mem_cons_of_mem _ hx)
      exact ⟨hc, fun b hb => (hw.same hV hb).trans (hsame b hb)⟩

/-! ### Users stay -/

/-- Whoever is there stays, in the same tenant. -/
def Persist (d d' : Db) : Prop :=
  ∀ k u, d.users.find? k = some u → ∃ u', d'.users.find? k = some u' ∧ u'.tenantID = u.tenantID

theorem Persist.refl (d : Db) : Persist d d := fun _ u h => ⟨u, h, rfl⟩

theorem Persist.trans {a b c : Db} (h : Persist a b) (h' : Persist b c) : Persist a c := by
  intro k u hu
  obtain ⟨u', hu', ht⟩ := h k u hu
  obtain ⟨u'', hu'', ht'⟩ := h' k u' hu'
  exact ⟨u'', hu'', ht'.trans ht⟩

theorem persist_applyAll (hws : ∀ r, .putUser r ∈ ws → ws = [.putUser r] ∧
    ∀ c, V.users.find? r.id = some c → c.tenantID = r.tenantID) :
    Persist V ((engine pg).applyAll V ws) := by
  by_cases hput : ∃ r, .putUser r ∈ ws
  · obtain ⟨r, hr⟩ := hput
    obtain ⟨rfl, hkept⟩ := hws r hr
    intro k u hu
    simp only [engine, Engine.applyAll_cons, Engine.applyAll_nil, Write.apply,
      Relational.Table.find?_put]
    by_cases hk : k = r.id
    · exact ⟨r, if_pos hk, (hkept u (hk ▸ hu)).symm⟩
    · exact ⟨u, by rw [if_neg hk, hu], rfl⟩
  · have hsame : ∀ d, ((engine pg).applyAll d ws).users = d.users := by
      clear hws
      induction ws with
      | nil => exact fun _ => rfl
      | cons w ws ih =>
        intro d
        rw [Engine.applyAll_cons, ih fun h => hput (h.imp fun r hr => List.mem_cons_of_mem _ hr)]
        cases w with
        | putUser r => exact (hput ⟨r, List.mem_cons_self⟩).elim
        | _ => rfl
    intro k u hu
    exact ⟨u, by rw [hsame, hu], rfl⟩

/-- A row that a statement locks is, when it has run, as the statement found it. -/
theorem locked_see {β : Type} {r : Record Stmt.Rows Write Env} (F : Focus (engine pg) β)
    (hr : (engine pg).StepOk db R log now hist r) (hk : F.key ∈ (engine pg).keysOf r.writes) :
    F.see ((engine pg).view ((engine pg).dbAt db log r.pos) hist) =
      F.see ((engine pg).view ((engine pg).current db log) hist) :=
  F.see_view db (fun c hc hkc => hr.held c hc hk hkc) hist

theorem mem_keysOf {w : Write} {κ : Store.Key} (hw : w ∈ ws) (hκ : κ ∈ w.keys pg) :
    κ ∈ (engine pg).keysOf ws :=
  List.mem_flatMap.mpr ⟨w, hw, hκ⟩

theorem stepOk_putUser {r : Record Stmt.Rows Write Env} {u : UserRow}
    (hr : (engine pg).StepOk db R log now hist r) (hu : .putUser u ∈ r.writes) :
    r.stmt.tenant = some u.tenantID ∧ r.writes = [.putUser u] ∧
      ∀ c, ((engine pg).view ((engine pg).current db log) hist).users.find? u.id = some c →
        c.tenantID = u.tenantID := by
  obtain ⟨t, ht, hputs⟩ := exec_putUser hr.ran hu
  refine ⟨by rw [ht, hputs.tenant], hputs.writes, fun c hc => hputs.kept c ?_⟩
  have hsee := locked_see (userFocus pg u.id) hr
    (mem_keysOf hu (by simp [userFocus, Write.keys]))
  exact hsee.trans hc

theorem persist_sound (hs : (engine pg).Sound db R log now [] hist) :
    Persist ((engine pg).current db log) ((engine pg).view ((engine pg).current db log) hist) := by
  induction hist using List.reverseRecOn with
  | nil => exact .refl _
  | append_singleton hist r ih =>
    obtain ⟨hs, hr⟩ := sound_snoc.mp hs
    refine (ih hs).trans ?_
    have hview : (engine pg).view ((engine pg).current db log) (hist ++ [r]) =
        (engine pg).applyAll ((engine pg).view ((engine pg).current db log) hist) r.writes := by
      simp [Engine.view]
    rw [hview]
    exact persist_applyAll fun u hu => (stepOk_putUser hr hu).2

theorem persist_history {D : Discipline Stmt.Rows} (h : (engine pg).History D db R log) {n : Nat}
    (hn : n ≤ log.length) : Persist ((engine pg).dbAt db log n) ((engine pg).current db log) := by
  induction h with
  | nil =>
    rw [Engine.dbAt_nil]
    exact .refl _
  | @tx log c h hc hs ih =>
    by_cases hlast : n = (log ++ [c]).length
    · rw [hlast]
      exact .refl _
    · have hle : n ≤ log.length := by
        simp only [List.length_append, List.length_singleton] at hn hlast
        omega
      rw [Engine.dbAt_append _ hle, Engine.current_commit]
      exact (ih hle).trans (persist_sound hs)
  | @pool log now r h hd hx ih =>
    by_cases hlast : n = log.length + 1
    · have hlen : n = (log ++ [(⟨now, [r]⟩ : Commit Stmt.Rows Write Env)]).length := by simp [hlast]
      rw [hlen]
      exact .refl _
    · have hle : n ≤ log.length := by
        simp only [List.length_append, List.length_singleton] at hn hlast
        omega
      rw [Engine.dbAt_append _ hle, Engine.current_snoc, Commit.writes, writesOf_cons, writesOf_nil,
        List.append_nil]
      refine (ih hle).trans (persist_applyAll fun u hu => ?_)
      obtain ⟨t, -, hputs⟩ := exec_putUser hx hu
      exact ⟨hputs.writes, hputs.kept⟩

/-! ### One statement -/

/-- The group whose memberships a statement changes. -/
def memberGroup : Stmt → Option Uuid
  | .clearMembers id | .addMembers id _ _ => Uuid.parse id
  | _ => none

section Statements

variable {env : Env} {snap : Db} {t : Stmt} {rows : t.Rows}

theorem exec_dropGroup (h : Store.exec pg now env t snap cur = .ok (rows, ws)) {k : Uuid}
    (hk : .dropGroup k ∈ ws) : ∃ tenantID g, t.tenant = some tenantID ∧
      cur.groups.find? k = some g ∧ g.tenantID = tenantID := by
  cases t with
  | deleteGroup tenantID id =>
    simp only [Store.exec, Store.execDeleteGroup] at h
    split at h
    · cases h
    · split at h
      · rename_i g _ hg
        cases h
        obtain rfl := Write.dropGroup.inj (List.mem_singleton.mp hk)
        obtain ⟨hfind, htenant⟩ := Store.groupOf_eq_some.mp hg
        exact ⟨tenantID, g, rfl, hfind, htenant⟩
      · cases h
        cases hk
  | _ => exact (Bool.false_ne_true (exec_mayWrite h _ hk)).elim

theorem exec_putMember (h : Store.exec pg now env t snap cur = .ok (rows, ws)) {m : MemberRow}
    (hm : .putMember m ∈ ws) : t.tenant = some m.tenantID ∧ memberGroup t = some m.groupID ∧
      ∃ u, cur.users.find? m.userID = some u ∧ u.tenantID = m.tenantID := by
  cases t with
  | addMembers groupID tenantID ids =>
    simp only [Store.exec, Store.execAddMembers] at h
    split at h
    · rename_i k uids hk _
      split at h
      · cases h
      · split at h
        · cases h
        · cases h
          obtain ⟨x, hx, hxm⟩ := List.mem_map.mp hm
          obtain rfl := Write.putMember.inj hxm
          obtain ⟨u, hu, rfl⟩ := List.mem_map.mp hx
          obtain ⟨hrow, hp⟩ := List.mem_filter.mp hu
          obtain ⟨htenant, -⟩ := of_decide_eq_true hp
          exact ⟨rfl, Store.parse_of_parseID hk, u, Relational.Table.find?_of_mem hrow, htenant⟩
    · cases h
    · cases h
  | _ => exact (Bool.false_ne_true (exec_mayWrite h _ hm)).elim

theorem exec_dropMember (h : Store.exec pg now env t snap cur = .ok (rows, ws)) {m : MemberRow}
    (hm : .dropMember m ∈ ws) : memberGroup t = some m.groupID := by
  cases t with
  | clearMembers groupID =>
    simp only [Store.exec, Store.execClearMembers] at h
    split at h
    · cases h
    · rename_i k hk
      cases h
      obtain ⟨x, hx, hxm⟩ := List.mem_map.mp hm
      obtain rfl := Write.dropMember.inj hxm
      obtain rfl := of_decide_eq_true (List.mem_filter.mp hx).2
      exact Store.parse_of_parseID hk
  | _ => exact (Bool.false_ne_true (exec_mayWrite h _ hm)).elim

theorem exec_members (h : Store.exec pg now env t snap cur = .ok (rows, ws)) {k : Uuid}
    (hk : memberGroup t = some k) : ∀ w ∈ ws, w.memberOf k := by
  cases t with
  | clearMembers groupID => exact Store.clearMembers_ok hk h
  | addMembers groupID tenantID ids => exact Store.addMembers_ok hk h
  | _ => cases hk

/-- A statement writes one row, or memberships of one group. -/
theorem exec_shape (h : Store.exec pg now env t snap cur = .ok (rows, ws)) :
    ws.length ≤ 1 ∨ ∃ k, ∀ w ∈ ws, w.memberOf k := by
  cases t with
  | clearMembers groupID =>
    cases hk : Uuid.parse groupID with
    | none => simp [Store.exec, Store.execClearMembers, Store.parseID, hk] at h
    | some k => exact Or.inr ⟨k, exec_members h hk⟩
  | addMembers groupID tenantID ids =>
    cases hk : Uuid.parse groupID with
    | none => simp [Store.exec, Store.execAddMembers, Store.parseID, hk] at h
    | some k => exact Or.inr ⟨k, exec_members h hk⟩
  | _ =>
    left
    simp only [Store.exec, Store.execInsertUser, Store.execSelectUser, Store.execUpdateUser,
      Store.execDeactivateUser, Store.execChangeUser, Store.execInsertGroup, Store.execSelectGroup,
      Store.execSelectMembers, Store.execSelectMembersOf, Store.execUpdateGroup, Store.execDeleteGroup,
      Store.execInsertAudit, Store.execInsertDelivery, Store.execReplayDelivery, Store.execInsertToken,
      Store.execTouchToken, Store.execRevokeToken, Store.execInsertConsoleToken,
      Store.execRevokeConsoleToken, Store.execInsertAttribute, Store.execDeleteAttribute,
      Store.execInsertAdminAudit] at h
    repeat' split at h
    all_goals cases h
    all_goals simp

end Statements

/-! ### One transaction -/

/-- From one view to another, within a tenant. -/
def Confined (t : String) (V V' : Db) : Prop :=
  Cohesive V → Cohesive V' ∧ ∀ b, b ≠ t → SameTenant b V V'

theorem Confined.refl (t : String) (V : Db) : Confined t V V :=
  fun h => ⟨h, fun b _ => .refl b V⟩

theorem Confined.trans {t : String} {a b c : Db} (h : Confined t a b) (h' : Confined t b c) :
    Confined t a c := by
  intro ha
  obtain ⟨hb, hab⟩ := h ha
  obtain ⟨hc, hbc⟩ := h' hb
  exact ⟨hc, fun x hx => (hab x hx).trans (hbc x hx)⟩

section Transactions

variable {t : String} {prior rest : History} {r : Record Stmt.Rows Write Env}

theorem view_snoc (d : Db) (prior : History) (r : Record Stmt.Rows Write Env) :
    (engine pg).view d (prior ++ [r]) = (engine pg).applyAll ((engine pg).view d prior) r.writes := by
  simp [Engine.view]

/-- A user that a statement has found is still in its tenant. -/
theorem found_persists (hs : (engine pg).Sound db R log now [] prior)
    (hr : (engine pg).StepOk db R log now prior r)
    (hP : ∀ n, n ≤ log.length → Persist ((engine pg).dbAt db log n) ((engine pg).current db log)) :
    Persist ((engine pg).view ((engine pg).dbAt db log r.pos) prior)
      ((engine pg).view ((engine pg).current db log) prior) := by
  intro k u hu
  by_cases hown : .user k ∈ (engine pg).keysOf (writesOf prior)
  · refine ⟨u, ?_, rfl⟩
    obtain ⟨w, hw, hkw⟩ := List.mem_flatMap.mp hown
    obtain ⟨d, hd, hwd⟩ := List.mem_flatMap.mp hw
    have hle : d.pos ≤ r.pos := Nat.le_trans (hr.after d hd) hr.snap_le
    have hheld : ∀ c ∈ log.drop r.pos, (userFocus pg k).key ∉ (engine pg).keysOf c.writes :=
      fun c hc hkc => hs.held_of_mem hd c (List.drop_subset_drop_left _ hle hc)
        (List.mem_flatMap.mpr ⟨w, hwd, hkw⟩) hkc
    exact ((userFocus pg k).see_view db hheld prior).symm.trans hu
  · have hsee := fun d => (userFocus pg k).see_applyAll_other (E := engine pg) d hown
    obtain ⟨u', hu', ht⟩ := hP r.pos hr.pos_le k u ((hsee _).symm.trans hu)
    exact ⟨u', (hsee _).trans hu', ht⟩

theorem stepOk_keeps (hs : (engine pg).Sound db R log now [] prior)
    (hr : (engine pg).StepOk db R log now prior r)
    (hP : ∀ n, n ≤ log.length → Persist ((engine pg).dbAt db log n) ((engine pg).current db log))
    (hT : ∀ t', r.stmt.tenant = some t' → t' = t)
    (hG : ∀ k, memberGroup r.stmt = some k → ∃ g,
      ((engine pg).view ((engine pg).current db log) prior).groups.find? k = some g ∧ g.tenantID = t) :
    ∀ w ∈ r.writes, KeepsTo ((engine pg).view ((engine pg).current db log) prior) t w := by
  intro w hw
  cases w with
  | putUser u =>
    obtain ⟨ht, -, hkept⟩ := stepOk_putUser hr hw
    have htu := hT _ ht
    exact .putUser u htu fun c hc => (hkept c hc).trans htu
  | putGroup g =>
    obtain ⟨t', ht', hputs⟩ := exec_putGroup hr.ran hw
    have htg : g.tenantID = t := hputs.tenant.trans (hT _ ht')
    have hsee := locked_see (groupRowFocus pg g.id) hr
      (mem_keysOf hw (by simp [groupRowFocus, Write.keys]))
    exact .putGroup g htg fun c hc => (hputs.kept c (hsee.trans hc)).trans htg
  | dropGroup k =>
    obtain ⟨t', g, ht', hg, hgt⟩ := exec_dropGroup hr.ran hw
    have hsee := locked_see (groupRowFocus pg k) hr
      (mem_keysOf hw (by simp [groupRowFocus, Write.keys]))
    exact .dropGroup k g (hsee.symm.trans hg) (hgt.trans (hT _ ht'))
  | putMember m =>
    obtain ⟨ht', hk, u, hu, hut⟩ := exec_putMember hr.ran hw
    have htm := hT _ ht'
    obtain ⟨g, hg, hgt⟩ := hG _ hk
    obtain ⟨u', hu', hut'⟩ := found_persists hs hr hP _ u hu
    exact .putMember m g u' htm hg hgt hu' (hut'.trans (hut.trans htm))
  | dropMember m =>
    obtain ⟨g, hg, hgt⟩ := hG _ (exec_dropMember hr.ran hw)
    exact .dropMember m g hg hgt
  | addAudit | addDelivery | putDelivery | putToken | putConsoleToken | putAttribute
  | dropAttribute | addAdminAudit => exact .record _ id

theorem step_confined (hs : (engine pg).Sound db R log now [] prior)
    (hr : (engine pg).StepOk db R log now prior r)
    (hP : ∀ n, n ≤ log.length → Persist ((engine pg).dbAt db log n) ((engine pg).current db log))
    (hT : ∀ t', r.stmt.tenant = some t' → t' = t)
    (hG : ∀ k, memberGroup r.stmt = some k → ∃ g,
      ((engine pg).view ((engine pg).current db log) prior).groups.find? k = some g ∧ g.tenantID = t) :
    Confined t ((engine pg).view ((engine pg).current db log) prior)
      ((engine pg).view ((engine pg).current db log) (prior ++ [r])) := by
  intro hV
  rw [view_snoc]
  exact keeps_all (stepOk_keeps hs hr hP hT hG) (exec_shape hr.ran) hV

variable (prior) in
/-- The statements of one tenant, with the memberships of at most one group, which is known. -/
theorem run_confined (hs : (engine pg).Sound db R log now [] (prior ++ rest))
    (hP : ∀ n, n ≤ log.length → Persist ((engine pg).dbAt db log n) ((engine pg).current db log))
    (hT : ∀ r ∈ rest, ∀ t', r.stmt.tenant = some t' → t' = t)
    (hG : (∀ r ∈ rest, memberGroup r.stmt = none) ∨ ∃ k g,
      ((engine pg).view ((engine pg).current db log) prior).groups.find? k = some g ∧
        g.tenantID = t ∧ ∀ r ∈ rest, memberGroup r.stmt = some k) :
    Confined t ((engine pg).view ((engine pg).current db log) prior)
      ((engine pg).view ((engine pg).current db log) (prior ++ rest)) := by
  induction rest generalizing prior with
  | nil =>
    rw [List.append_nil]
    exact .refl _ _
  | cons r rest ih =>
    obtain ⟨hprior, hcons⟩ := sound_append.mp hs
    have hr : (engine pg).StepOk db R log now prior r := hcons.1
    have hassoc : prior ++ r :: rest = (prior ++ [r]) ++ rest := by simp
    rw [hassoc] at hs ⊢
    have hT' := fun x hx => hT x (List.mem_cons_of_mem _ hx)
    refine (step_confined hprior hr hP (hT r List.mem_cons_self) fun k hk => ?_).trans (ih _ hs hT' ?_)
    · rcases hG with hnone | ⟨k', g, hg, hgt, hmem⟩
      · cases (hnone r List.mem_cons_self).symm.trans hk
      · obtain rfl := Option.some.inj ((hmem r List.mem_cons_self).symm.trans hk)
        exact ⟨g, hg, hgt⟩
    · refine hG.imp (fun hnone x hx => hnone x (List.mem_cons_of_mem _ hx)) ?_
      rintro ⟨k, g, hg, hgt, hmem⟩
      refine ⟨k, g, ?_, hgt, fun x hx => hmem x (List.mem_cons_of_mem _ hx)⟩
      have hframe := Store.memberOf_frame pg (exec_members hr.ran (hmem r List.mem_cons_self))
        ((engine pg).view ((engine pg).current db log) prior)
      rw [view_snoc, hframe.2.1, hg]

end Transactions

/-! ### Mutations -/

/-- An entry of a trail is no change of the directory. -/
theorem alien_recorded {rec : Store.AuditRecord} {tenantID id : String} {resource : Store.Resource}
    {action : Store.Action} {before after : Option Store.Image} {eventType : Store.EventType}
    {payload : Store.Payload} : ∀ e ∈ s.recorded rec tenantID resource action id before after
      eventType payload, e.1.tenant = none ∧ memberGroup e.1 = none := by
  intro e he
  rcases List.mem_cons.mp he with rfl | he
  · exact ⟨rfl, rfl⟩
  · unfold Store.queued at he
    split at he
    · obtain rfl := List.mem_singleton.mp he
      exact ⟨rfl, rfl⟩
    · cases he

theorem mem_replaced {tenantID groupID : String} {ids : List String} {n : Nat}
    {e : Txn.Entry Stmt.Rows} (he : e ∈ Store.replacedHistory tenantID groupID ids n) :
    (∀ t, e.1.tenant = some t → t = tenantID) ∧ memberGroup e.1 = Uuid.parse groupID := by
  rcases List.mem_cons.mp he with rfl | he
  · exact ⟨fun t h => (Option.some_ne_none t h.symm).elim, rfl⟩
  · split at he
    · cases he
    · obtain rfl := List.mem_singleton.mp he
      exact ⟨fun t h => (Option.some.inj h).symm, rfl⟩

/-- A mutation's statements are for its tenant. -/
theorem history_tenant {m : Mutation} {es : List (Txn.Entry Stmt.Rows)} (h : m.History s es) :
    ∀ e ∈ es, ∀ t, e.1.tenant = some t → t = m.tenantID := by
  have hrest : ∀ {e : Txn.Entry Stmt.Rows} {t : String}, e.1.tenant = none →
      e.1.tenant = some t → t = m.tenantID := fun hn ht => by cases hn.symm.trans ht
  intro e he t ht
  cases h with
  | createUser created =>
    rcases List.mem_cons.mp he with rfl | he
    · exact (Option.some.inj ht).symm
    · exact hrest (alien_recorded e he).1 ht
  | updateUser ch | deactivateUser ch =>
    rcases List.mem_cons.mp he with rfl | he
    · exact (Option.some.inj ht).symm
    · exact hrest (alien_recorded e he).1 ht
  | createGroup created n members =>
    simp only [Store.createGroupHistory, List.append_assoc, List.mem_append, List.mem_singleton] at he
    rcases he with rfl | he | rfl | he
    · exact (Option.some.inj ht).symm
    · exact (mem_replaced he).1 t ht
    · exact hrest rfl ht
    · exact hrest (alien_recorded e he).1 ht
  | updateGroup before members after n newMembers =>
    simp only [Store.updateGroupHistory, List.append_assoc, List.cons_append, List.nil_append,
      List.mem_append, List.mem_cons] at he
    rcases he with rfl | rfl | rfl | he | rfl | he
    · exact hrest rfl ht
    · exact hrest rfl ht
    · exact (Option.some.inj ht).symm
    · exact (mem_replaced he).1 t ht
    · exact hrest rfl ht
    · exact hrest (alien_recorded e he).1 ht
  | deleteGroup before members n clock =>
    simp only [Store.deleteGroupHistory, List.cons_append, List.nil_append, List.mem_cons] at he
    rcases he with rfl | rfl | rfl | he
    · exact hrest rfl ht
    · exact hrest rfl ht
    · exact (Option.some.inj ht).symm
    · exact hrest (alien_recorded e he).1 ht

section Mutations

variable {tenantID id : String} {rec : Store.AuditRecord} {g : Store.Group}

theorem members_confined {front rep tail : History} {groupID : String} {ids : List String} {n : Nat}
    {r : GroupRow} (hs : (engine pg).Sound db R log now [] (front ++ (rep ++ tail)))
    (hP : ∀ n, n ≤ log.length → Persist ((engine pg).dbAt db log n) ((engine pg).current db log))
    (hT : ∀ x ∈ front ++ (rep ++ tail), ∀ t, x.stmt.tenant = some t → t = tenantID)
    (hfront : ∀ x ∈ front, memberGroup x.stmt = none)
    (hrep : rep.map Record.entry = Store.replacedHistory tenantID groupID ids n)
    (htail : ∀ x ∈ tail, memberGroup x.stmt = none) (hid : Uuid.parse groupID = some r.id)
    (hrow : ((engine pg).view ((engine pg).current db log) front).groups.find? r.id = some r)
    (htenant : r.tenantID = tenantID) :
    Confined tenantID ((engine pg).current db log)
      ((engine pg).view ((engine pg).current db log) (front ++ (rep ++ tail))) := by
  have hone : Confined tenantID ((engine pg).current db log)
      ((engine pg).view ((engine pg).current db log) front) :=
    run_confined [] (sound_append.mp hs).1 hP
      (fun x hx => hT x (List.mem_append_left _ hx)) (Or.inl hfront)
  rw [← List.append_assoc] at hs ⊢
  have hmembers : ∀ x ∈ rep, memberGroup x.stmt = some r.id := fun x hx => by
    have he : x.entry ∈ Store.replacedHistory tenantID groupID ids n :=
      hrep ▸ List.mem_map_of_mem hx
    exact (mem_replaced he).2.trans hid
  refine (hone.trans (run_confined _ (sound_append.mp hs).1 hP
    (fun x hx => hT x (by simp [hx])) (Or.inr ⟨r.id, r, hrow, htenant, hmembers⟩))).trans ?_
  exact run_confined _ hs hP (fun x hx => hT x (by simp [hx])) (Or.inl htail)

theorem tail_alien {tail : History} {groupID : String} {members : List String}
    {rest : List (Txn.Entry Stmt.Rows)} (h : tail.map Record.entry = [⟨.selectMembers groupID, members⟩] ++ rest)
    (hrest : ∀ e ∈ rest, memberGroup e.1 = none) : ∀ x ∈ tail, memberGroup x.stmt = none := by
  intro x hx
  have he : x.entry ∈ [⟨.selectMembers groupID, members⟩] ++ rest := h ▸ List.mem_map_of_mem hx
  rcases List.mem_append.mp he with he | he
  · rw [List.mem_singleton] at he
    exact congrArg (fun e : Txn.Entry Stmt.Rows => memberGroup e.1) he
  · exact hrest _ he

/-- A mutation keeps to its tenant. -/
theorem mutation_confined {m : Mutation} (hm : m.History s (hist.map Record.entry))
    (hs : (engine pg).Sound db R log now [] hist)
    (hP : ∀ n, n ≤ log.length → Persist ((engine pg).dbAt db log n) ((engine pg).current db log)) :
    Confined m.tenantID ((engine pg).current db log)
      ((engine pg).view ((engine pg).current db log) hist) := by
  have hT : ∀ x ∈ hist, ∀ t, x.stmt.tenant = some t → t = m.tenantID := fun x hx =>
    history_tenant hm x.entry (List.mem_map_of_mem hx)
  -- without a change of memberships, there is nothing to know of a group
  have hplain : (∀ e ∈ hist.map Record.entry, memberGroup e.1 = none) →
      Confined m.tenantID ((engine pg).current db log)
        ((engine pg).view ((engine pg).current db log) hist) := fun hnone =>
    run_confined [] hs hP hT
      (Or.inl fun x hx => hnone x.entry (List.mem_map_of_mem hx))
  generalize hes : hist.map Record.entry = es at hm hplain
  cases hm with
  | createUser created =>
    refine hplain fun e he => ?_
    rcases List.mem_cons.mp he with rfl | he
    · rfl
    · exact (alien_recorded e he).2
  | updateUser ch | deactivateUser ch =>
    refine hplain fun e he => ?_
    rcases List.mem_cons.mp he with rfl | he
    · rfl
    · exact (alien_recorded e he).2
  | deleteGroup before members n clock =>
    refine hplain fun e he => ?_
    simp only [Store.deleteGroupHistory, List.cons_append, List.nil_append, List.mem_cons] at he
    rcases he with rfl | rfl | rfl | he
    · rfl
    · rfl
    · rfl
    · exact (alien_recorded e he).2
  | createGroup created n members =>
    rw [Store.createGroupHistory, List.append_assoc, List.append_assoc] at hes
    obtain ⟨front, rest, rfl, hfront, hrest⟩ := List.map_eq_append_iff.mp hes
    obtain ⟨rep, tail, rfl, hrep, htail⟩ := List.map_eq_append_iff.mp hrest
    obtain ⟨ws, env, snap, pos, rfl⟩ := map_entry_eq_singleton.mp hfront
    obtain ⟨r, rfl, hws, -, htenant, -, -⟩ := Store.insertGroup_ok (sound_append.mp hs).1.1.ran
    refine members_confined (r := r) hs hP hT ?_ hrep (tail_alien htail fun e he =>
      (alien_recorded e he).2) (Uuid.parse_text r.id) ?_ htenant
    · simp [memberGroup]
    · simp only at hws
      simp [Engine.view, hws, engine, Write.apply]
  | updateGroup before members after n newMembers =>
    rw [Store.updateGroupHistory, List.append_assoc, List.append_assoc] at hes
    obtain ⟨front, rest, rfl, hfront, hrest⟩ := List.map_eq_append_iff.mp hes
    obtain ⟨rep, tail, rfl, hrep, htail⟩ := List.map_eq_append_iff.mp hrest
    obtain ⟨ws₁, env₁, snap₁, pos₁, after₁, rfl, hafter₁⟩ := map_entry_eq_cons.mp hfront
    obtain ⟨ws₂, env₂, snap₂, pos₂, after₂, rfl, hafter₂⟩ := map_entry_eq_cons.mp hafter₁
    obtain ⟨ws₃, env₃, snap₃, pos₃, rfl⟩ := map_entry_eq_singleton.mp hafter₂
    obtain ⟨hs₁, -, hs₃, -⟩ := (sound_append.mp hs).1
    obtain ⟨k, -, hk, -⟩ := Store.selectGroup_ok hs₁.ran
    obtain ⟨c, r, rfl, hws, rfl, hc, htenant, -⟩ := Store.updateGroup_ok hk hs₃.ran
    refine members_confined (r := r) hs hP hT ?_ hrep (tail_alien htail fun e he =>
      (alien_recorded e he).2) hk ?_ (htenant.trans (Store.groupOf_eq_some.mp hc).2)
    · simp [memberGroup]
    · simp only at hws
      simp [Engine.view, hws, engine, Write.apply]

end Mutations

/-! ### Runs -/

variable (pg) in
/-- A commit that writes no directory rows leaves every tenant as it is. -/
theorem records_same (hws : ∀ w ∈ ws, ¬ w.directory) (V : Db) :
    (Cohesive V → Cohesive ((engine pg).applyAll V ws)) ∧
      ∀ b, SameTenant b V ((engine pg).applyAll V ws) := by
  induction ws generalizing V with
  | nil => exact ⟨id, fun b => .refl b V⟩
  | cons w ws ih =>
    have hw : KeepsTo V "" w := .record w (hws w List.mem_cons_self)
    obtain ⟨hu, hg, hm⟩ := record_same pg (hws w List.mem_cons_self) V
    obtain ⟨hc, hsame⟩ := ih (fun x hx => hws x (List.mem_cons_of_mem _ hx)) ((engine pg).apply V w)
    refine ⟨fun hV => hc (hw.cohesive hV), fun b => SameTenant.trans ?_ (hsame b)⟩
    exact ⟨fun _ _ => by rw [hu], fun _ _ => by rw [hg], fun _ _ => by rw [hm]⟩

theorem looked_writes {t : Stmt} (ht : Looked t ∨ Store.Denied t) {env : Env} {snap cur : Db}
    {rows : t.Rows} (h : Store.exec pg now env t snap cur = .ok (rows, ws)) :
    ∀ w ∈ ws, ¬ w.directory := by
  intro w hw hdir
  have hmay := exec_mayWrite h w hw
  cases t <;> first
    | exact ht.elim id id
    | (cases w <;> first | exact hdir | exact Bool.false_ne_true hmay)

theorem operated_writes {d : Db} (h : Store.AdminStep d ws) : ∀ w ∈ ws, ¬ w.directory := by
  cases h <;> simp [Write.directory]

/-- What a commit of the server does to the tenants: a mutation changes its own, which is that of the
caller's token. -/
def TenantStep (s : Store) (d d' : Db) (c : Commit Stmt.Rows Write Env) : Prop :=
  (∀ b, SameTenant b d d') ∨
    ∃ m : Mutation, OwnTenant m ∧ m.History s (c.hist.map Record.entry) ∧
      ∀ b, b ≠ m.tenantID → SameTenant b d d'

theorem history_tenants (h : ServerLog pg s R log) :
    Cohesive ((engine pg).current .empty log) ∧ ∀ pre c, pre ++ [c] <+: log →
      TenantStep s ((engine pg).current .empty pre) ((engine pg).current .empty (pre ++ [c])) c := by
  have hstep : ∀ {log : List (Commit Stmt.Rows Write Env)} {c : Commit Stmt.Rows Write Env} {P : Prop},
      (P ∧ ∀ pre c, pre ++ [c] <+: log →
        TenantStep s ((engine pg).current .empty pre) ((engine pg).current .empty (pre ++ [c])) c) →
      TenantStep s ((engine pg).current .empty log) ((engine pg).current .empty (log ++ [c])) c →
      ∀ pre d, pre ++ [d] <+: log ++ [c] →
        TenantStep s ((engine pg).current .empty pre) ((engine pg).current .empty (pre ++ [d])) d := by
    intro log c P ih hlast pre d hpre
    rcases List.prefix_concat_iff.mp hpre with heq | hpre
    · obtain ⟨rfl, hd⟩ := List.append_inj' heq rfl
      obtain rfl := (List.cons.inj hd).1
      exact hlast
    · exact ih.2 pre d hpre
  induction h with
  | nil =>
    refine ⟨fun m hm => (List.not_mem_nil hm).elim, fun pre c hpre => ?_⟩
    cases pre <;> cases List.prefix_nil.mp hpre
  | @tx log c h hc hs ih =>
    rcases hc with ⟨m, hown, hm⟩ | ho
    · obtain ⟨hcohesive, hsame⟩ := mutation_confined hm hs (fun n hn => persist_history h hn) ih.1
      rw [← Engine.current_commit] at hcohesive hsame
      exact ⟨hcohesive, hstep ih (Or.inr ⟨m, hown, hm, hsame⟩)⟩
    · obtain ⟨pos, hop, -⟩ := Store.operated_step ho hs
      obtain ⟨hcohesive, hsame⟩ := records_same pg (operated_writes hop)
        ((engine pg).current .empty log)
      have hnext : (engine pg).applyAll ((engine pg).current .empty log) (writesOf c.hist) =
          (engine pg).current .empty (log ++ [c]) := by rw [Engine.current_snoc, Commit.writes]
      rw [hnext] at hcohesive hsame
      exact ⟨hcohesive ih.1, hstep ih (Or.inl hsame)⟩
  | @pool log now r h hd hx ih =>
    obtain ⟨hcohesive, hsame⟩ := records_same pg (looked_writes hd hx)
      ((engine pg).current .empty log)
    have hnext : (engine pg).applyAll ((engine pg).current .empty log) r.writes =
        (engine pg).current .empty (log ++ [⟨now, [r]⟩]) := by
      rw [Engine.current_snoc, Commit.writes, writesOf_cons, writesOf_nil, List.append_nil]
    rw [hnext] at hcohesive hsame
    exact ⟨hcohesive ih.1, hstep ih (Or.inl hsame)⟩

/-- However requests and operators' calls interleave, every membership joins a group and a user of its
own tenant, and a commit changes rows of one tenant at most: that of the token it came with. -/
theorem served_tenants_apart {ι : Type} [DecidableEq ι] [Fintype ι] {chain : Chain}
    {sha256 : String → List UInt8} {works : ι → Work} {st : Server ι}
    (h : (engine pg).Reach .empty (serverProgs chain sha256 works) (fun _ _ => True) st) :
    Cohesive (st.db pg) ∧ ∀ pre c, pre ++ [c] <+: st.log → TenantStep chain.handler.store
      ((engine pg).current .empty pre) ((engine pg).current .empty (pre ++ [c])) c := by
  have hall : (engine pg).Reach .empty (serverProgs chain sha256 works)
      ((engine pg).Meets fun _ _ _ => True) st :=
    h.mono fun _ e _ => by cases e <;> simp [Meets]
  exact history_tenants (reach_served hall)

theorem served_tenants_apart_staff : ∃ st : Server Store.Client,
    (st.db Store.plainText).members.rows.length = 1 ∧ Cohesive (st.db Store.plainText) ∧
      ∀ pre c, pre ++ [c] <+: st.log → TenantStep ⟨false⟩ ((engine Store.plainText).current .empty pre)
        ((engine Store.plainText).current .empty (pre ++ [c])) c := by
  obtain ⟨st, hst, hfacts⟩ := staff_run
  exact ⟨st, (Prod.mk.inj (Prod.mk.inj hfacts).2).2, served_tenants_apart (reach_steps .start hst)⟩

end Scimage.Scim
