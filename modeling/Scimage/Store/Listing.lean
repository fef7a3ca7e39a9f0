import Scimage.Store.Quiet

/-! Lists of users and groups in the order of their creation. -/
namespace Scimage.Store

open Txn Engine

/-! ### Orders -/

theorem Uuid.ble_iff {u v : Uuid} : u.ble v = true ↔ ¬ v.groups < u.groups := by
  have hlex : (v.groups.lex u.groups fun a b => a.val < b.val) = true ↔ v.groups < u.groups :=
    List.lex_eq_true_iff_lt
  rw [Uuid.ble, Bool.not_eq_true', ← Bool.not_eq_true, hlex]

theorem Uuid.not_lt_total (u v : Uuid) : ¬ v.groups < u.groups ∨ ¬ u.groups < v.groups :=
  List.le_total u.groups v.groups

theorem Uuid.not_lt_trans {u v w : Uuid} (h : ¬ v.groups < u.groups) (h' : ¬ w.groups < v.groups) :
    ¬ w.groups < u.groups :=
  List.le_trans h h'

theorem Uuid.groups_injective {u v : Uuid} (h : u.groups = v.groups) : u = v := by
  cases u
  cases v
  simpa using h

theorem Uuid.not_lt_antisymm {u v : Uuid} (h : ¬ v.groups < u.groups) (h' : ¬ u.groups < v.groups) :
    u = v :=
  Uuid.groups_injective (List.le_antisymm h h')

/-- Instants, then identifiers. -/
def stampedBefore (s t : Int) (u v : Uuid) : Bool := s < t || (s == t && u.ble v)

theorem stampedBefore_iff {s t : Int} {u v : Uuid} :
    stampedBefore s t u v = true ↔ s < t ∨ s = t ∧ ¬ v.groups < u.groups := by
  simp only [stampedBefore, Bool.or_eq_true, Bool.and_eq_true, decide_eq_true_eq, beq_iff_eq,
    Uuid.ble_iff]

theorem stampedBefore_total (s t : Int) (u v : Uuid) :
    stampedBefore s t u v = true ∨ stampedBefore t s v u = true := by
  simp only [stampedBefore_iff]
  rcases lt_trichotomy s t with h | rfl | h
  · exact Or.inl (Or.inl h)
  · exact (Uuid.not_lt_total u v).imp (fun hle => Or.inr ⟨rfl, hle⟩)
      (fun hle => Or.inr ⟨rfl, hle⟩)
  · exact Or.inr (Or.inl h)

theorem stampedBefore_trans {r s t : Int} {u v w : Uuid} (h : stampedBefore r s u v = true)
    (h' : stampedBefore s t v w = true) : stampedBefore r t u w = true := by
  simp only [stampedBefore_iff] at h h' ⊢
  rcases h with h | ⟨rfl, h⟩
  · omega
  · rcases h' with h' | ⟨rfl, h'⟩
    · exact Or.inl h'
    · exact Or.inr ⟨rfl, Uuid.not_lt_trans h h'⟩

theorem stampedBefore_antisymm {s t : Int} {u v : Uuid} (h : stampedBefore s t u v = true)
    (h' : stampedBefore t s v u = true) : u = v := by
  simp only [stampedBefore_iff] at h h'
  rcases h with h | ⟨rfl, h⟩
  · omega
  · rcases h' with h' | ⟨-, h'⟩
    · omega
    · exact Uuid.not_lt_antisymm h h'

/-- A list sorted by instants and identifiers is in that order, and holds the same rows. -/
theorem stamped_sorted {ρ : Type} (stamp : ρ → Int) (id : ρ → Uuid) (rows : List ρ) :
    let sorted := rows.insertionSort fun a b => stampedBefore (stamp a) (stamp b) (id a) (id b)
    sorted.Perm rows ∧
      sorted.Pairwise fun a b => stampedBefore (stamp a) (stamp b) (id a) (id b) = true := by
  have : Std.Total fun a b : ρ => stampedBefore (stamp a) (stamp b) (id a) (id b) = true :=
    ⟨fun a b => stampedBefore_total ..⟩
  have : IsTrans ρ fun a b => stampedBefore (stamp a) (stamp b) (id a) (id b) = true :=
    ⟨fun a b c => stampedBefore_trans⟩
  exact ⟨List.perm_insertionSort _ _, List.pairwise_insertionSort _ _⟩

def Db.usersInOrder (pg : Postgres) (db : Db) (tenantID : String) (f : UserFilter) : List UserRow :=
  (db.usersWhere pg tenantID f).insertionSort fun a b => a.before b

def Db.groupsInOrder (pg : Postgres) (db : Db) (tenantID : String) (f : GroupFilter) :
    List GroupRow :=
  (db.groupsWhere pg tenantID f).insertionSort fun a b => a.before b

theorem usersInOrder_sorted (pg : Postgres) (db : Db) (tenantID : String) (f : UserFilter) :
    (db.usersInOrder pg tenantID f).Perm (db.usersWhere pg tenantID f) ∧
      (db.usersInOrder pg tenantID f).Pairwise (fun a b => a.before b = true) :=
  stamped_sorted UserRow.createdAt UserRow.id _

theorem groupsInOrder_sorted (pg : Postgres) (db : Db) (tenantID : String) (f : GroupFilter) :
    (db.groupsInOrder pg tenantID f).Perm (db.groupsWhere pg tenantID f) ∧
      (db.groupsInOrder pg tenantID f).Pairwise (fun a b => a.before b = true) :=
  stamped_sorted GroupRow.createdAt GroupRow.id _

/-! ### Members of several groups -/

/-- The order of `selectMembersOf`. -/
abbrev rosterBefore (a b : MemberRow) : Prop :=
  (a.groupID ≠ b.groupID ∧ a.groupID.ble b.groupID) ∨ (a.groupID = b.groupID ∧ memberBefore a b)

theorem rosterBefore_iff {a b : MemberRow} : rosterBefore a b ↔
    a.groupID ≠ b.groupID ∧ ¬ b.groupID.groups < a.groupID.groups ∨
      a.groupID = b.groupID ∧ memberBefore a b = true := by
  simp only [rosterBefore, Uuid.ble_iff]

theorem rosterBefore_total (a b : MemberRow) :
    rosterBefore a b ∨ rosterBefore b a := by
  simp only [rosterBefore_iff]
  by_cases h : a.groupID = b.groupID
  · exact (stampedBefore_total a.addedAt b.addedAt a.userID b.userID).imp
      (fun hb => Or.inr ⟨h, hb⟩) (fun hb => Or.inr ⟨h.symm, hb⟩)
  · exact (Uuid.not_lt_total a.groupID b.groupID).imp
      (fun hle => Or.inl ⟨h, hle⟩) (fun hle => Or.inl ⟨Ne.symm h, hle⟩)

theorem rosterBefore_trans {a b c : MemberRow} (h : rosterBefore a b)
    (h' : rosterBefore b c) : rosterBefore a c := by
  simp only [rosterBefore_iff] at h h' ⊢
  rcases h with ⟨hne, hle⟩ | ⟨heq, hb⟩
  · rcases h' with ⟨hne', hle'⟩ | ⟨heq', -⟩
    · refine Or.inl ⟨fun heq => ?_, Uuid.not_lt_trans hle hle'⟩
      rw [heq] at hle hne
      exact hne (Uuid.not_lt_antisymm hle hle')
    · rw [← heq']
      exact Or.inl ⟨hne, hle⟩
  · rcases h' with ⟨hne', hle'⟩ | ⟨heq', hb'⟩
    · rw [heq]
      exact Or.inl ⟨hne', hle'⟩
    · exact Or.inr ⟨heq.trans heq', stampedBefore_trans hb hb'⟩

/-- Of the members of several groups, those of one of them are in its own order. -/
theorem roster_of_group (db : Db) {ids : List Uuid} {k : Uuid} (hk : k ∈ ids) :
    ((db.members.rows.filter fun m => m.groupID ∈ ids).insertionSort
        fun a b => rosterBefore a b).filter (fun m => m.groupID = k) =
      (db.members.rows.filter fun m => m.groupID = k).insertionSort fun a b => memberBefore a b := by
  have : Std.Total fun a b : MemberRow => rosterBefore a b := ⟨rosterBefore_total⟩
  have : IsTrans MemberRow fun a b => rosterBefore a b := ⟨fun _ _ _ => rosterBefore_trans⟩
  have hsorted := List.pairwise_insertionSort (fun a b => rosterBefore a b)
    (db.members.rows.filter fun m => m.groupID ∈ ids)
  obtain ⟨hperm, hown⟩ := stamped_sorted MemberRow.addedAt MemberRow.userID
    (db.members.rows.filter fun m => m.groupID = k)
  have hmem : ∀ m, m ∈ (db.members.rows.filter fun m => m.groupID = k).insertionSort
      (fun a b => memberBefore a b) → m ∈ db.members.rows ∧ m.groupID = k := by
    intro m hm
    simpa using hperm.mem_iff.mp hm
  have hfiltered : (((db.members.rows.filter fun m => m.groupID ∈ ids).insertionSort
      fun a b => rosterBefore a b).filter fun m => m.groupID = k).Perm
      ((db.members.rows.filter fun m => m.groupID = k).insertionSort
        fun a b => memberBefore a b) := by
    refine ((List.perm_insertionSort _ _).filter _).trans ?_
    rw [Relational.Table.filter_filter_of_imp]
    · exact hperm.symm
    · intro m hm
      simp only [decide_eq_true_eq] at hm ⊢
      rwa [hm]
  refine List.Perm.eq_of_pairwise ?_ ?_ hown hfiltered
  · intro a b ha hb hab hba
    obtain ⟨harow, hak⟩ := hmem a (hfiltered.mem_iff.mp ha)
    obtain ⟨hbrow, hbk⟩ := hmem b hb
    have hkey : a.key = b.key := by
      rw [MemberRow.key, MemberRow.key, hak, hbk, stampedBefore_antisymm hab hba]
    have hfind := Relational.Table.find?_of_mem harow
    rw [hkey, Relational.Table.find?_of_mem hbrow] at hfind
    exact (Option.some.inj hfind).symm
  · refine (hsorted.filter _).imp_of_mem ?_
    intro a b ha hb hab
    have hak : a.groupID = k := (hmem a (hfiltered.mem_iff.mp ha)).2
    have hbk : b.groupID = k := (hmem b (hfiltered.mem_iff.mp hb)).2
    rcases rosterBefore_iff.mp hab with ⟨hne, -⟩ | ⟨-, hmb⟩
    · exact (hne (hak.trans hbk.symm)).elim
    · exact hmb

/-! ### Calls -/

variable {pg : Postgres} {supply : Nat → Supply Env DbError} {w : StoreWorld} {db : Db}
  {tenantID : String} {limit offset : Int} {err : StoreError → StoreWorld → Prop}

/-- A statement on a connection of its own that only reads. -/
theorem leads_read {s : Stmt} {x : s.Rows} {ok : s.Rows → StoreWorld → Prop} (hw : w.Idle db)
    (hx : ∀ now env, exec pg now env s db db = .ok (x, []))
    (hok : ∀ w', w'.Idle db → ok x w')
    (herr : ∀ e w', ¬ Quiet supply → w'.Idle db → err e w') :
    (engine pg).Leads supply (Querier.pool.exec s) ok err w := by
  obtain ⟨rfl, htx⟩ := hw
  refine leads_bind.mpr (leads_pool ?_ ?_)
  · intro now env r ws w' hx' hdb htx'
    obtain ⟨rfl, rfl⟩ := Prod.mk.inj (Except.ok.inj ((hx now env).symm.trans hx'))
    exact hok w' ⟨hdb, htx'.trans htx⟩
  · intro e w' hx' hdb htx'
    refine herr _ w' (fun hq => ?_) ⟨hdb, htx'.trans htx⟩
    obtain ⟨now, env, hx'⟩ := hx' hq
    cases (hx now env).symm.trans hx'

theorem leads_listUsers {f : UserFilter} {ok : List User × Nat → StoreWorld → Prop}
    (hl : 0 ≤ limit) (ho : 0 ≤ offset) (hw : w.Idle db)
    (hok : ∀ w', w'.Idle db → ok ((((db.usersInOrder pg tenantID f).drop offset.toNat).take
      (min limit maxPageSize).toNat).map scanUser, (db.usersWhere pg tenantID f).length) w')
    (herr : ∀ e w', ¬ Quiet supply → w'.Idle db → err e w') :
    (engine pg).Leads supply (listUsers tenantID limit offset f) ok err w := by
  have hpage : ¬ (limit < 0 ∨ offset < 0) := by omega
  rw [listUsers, if_neg hpage]
  refine leads_bind.mpr (leads_read hw (fun _ _ => rfl) ?_ herr)
  intro w' hidle
  exact leads_bind.mpr (leads_read hidle (fun _ _ => rfl) hok herr)

theorem parseIDs_texts (ids : List Uuid) : parseIDs (ids.map Uuid.text) = .ok ids := by
  induction ids with
  | nil => rfl
  | cons k ks ih =>
    have ih' : (ks.map Uuid.text).mapM parseID = .ok ks := ih
    rw [parseIDs, List.map_cons, List.mapM_cons, ih', parseID, Uuid.parse_text]
    rfl

/-- The members of a group, out of the pairs that the statement returns. -/
theorem filterMap_pairs (ms : List MemberRow) (k : Uuid) :
    (ms.map fun m => (m.groupID.text, m.userID.text)).filterMap
        (fun r => if r.1 = k.text then some r.2 else none) =
      (ms.filter fun m => m.groupID = k).map fun m => m.userID.text := by
  induction ms with
  | nil => rfl
  | cons m ms ih =>
    rw [List.map_cons, List.filterMap_cons]
    by_cases hm : m.groupID = k
    · simp [hm, ih]
    · have htext : m.groupID.text ≠ k.text := fun he => hm (Uuid.text_injective he)
      simp [hm, htext, ih]

/-- What `selectMembersOf` returns. -/
def Db.roster (db : Db) (ids : List Uuid) : List (String × String) :=
  ((db.members.rows.filter fun m => m.groupID ∈ ids).insertionSort fun a b => rosterBefore a b).map
    fun m => (m.groupID.text, m.userID.text)

theorem exec_selectMembersOf (now : Time) (env : Env) (ids : List Uuid) :
    exec pg now env (.selectMembersOf (ids.map Uuid.text)) db db = .ok (db.roster ids, []) := by
  simp only [exec, execSelectMembersOf, parseIDs_texts]
  rfl

theorem roster_members {ids : List Uuid} {k : Uuid} (hk : k ∈ ids) :
    ((db.roster ids).filterMap fun r => if r.1 = k.text then some r.2 else none) =
      db.membersOf k := by
  rw [Db.roster, filterMap_pairs, roster_of_group db hk, Db.membersOf]

/-- A group's row as the store hands it out, with its members. -/
def Db.groupWithMembers (db : Db) (r : GroupRow) : Group :=
  { scanGroup r with members := db.membersOf r.id }

theorem leads_attachMembers {rows : List GroupRow} {ok : List Group → StoreWorld → Prop}
    (hw : w.Idle db) (hok : ∀ w', w'.Idle db → ok (rows.map db.groupWithMembers) w')
    (herr : ∀ e w', ¬ Quiet supply → w'.Idle db → err e w') :
    (engine pg).Leads supply (attachMembers .pool (rows.map scanGroup)) ok err w := by
  have hids : (rows.map scanGroup).map Group.id = (rows.map GroupRow.id).map Uuid.text := by
    simp [Function.comp_def]
  unfold attachMembers
  rw [hids]
  by_cases hempty : (rows.map scanGroup).isEmpty = true
  · have hnil : rows = [] := by simpa using hempty
    rw [if_pos hempty, leads_pure]
    rw [hnil] at hok ⊢
    exact hok w hw
  · rw [if_neg hempty]
    refine leads_bind.mpr (leads_read (x := db.roster (rows.map GroupRow.id)) hw
      (fun now env => exec_selectMembersOf now env _) ?_ herr)
    intro w' hidle
    rw [leads_pure]
    let members (g : Group) : List String :=
      (db.roster (rows.map GroupRow.id)).filterMap fun r => if r.1 = g.id then some r.2 else none
    have hmap : (rows.map scanGroup).map (fun g => { g with members := members g }) =
        rows.map db.groupWithMembers := by
      rw [List.map_map]
      refine List.map_congr_left fun r hr => ?_
      have hmembers : members (scanGroup r) = db.membersOf r.id :=
        roster_members (List.mem_map_of_mem hr)
      rw [Function.comp_apply, hmembers]
      rfl
    exact (congrArg (ok · w') hmap).mpr (hok w' hidle)

theorem leads_listGroups {f : GroupFilter} {ok : List Group × Nat → StoreWorld → Prop}
    (hl : 0 ≤ limit) (ho : 0 ≤ offset) (hw : w.Idle db)
    (hok : ∀ w', w'.Idle db → ok ((((db.groupsInOrder pg tenantID f).drop offset.toNat).take
      (min limit maxPageSize).toNat).map db.groupWithMembers,
        (db.groupsWhere pg tenantID f).length) w')
    (herr : ∀ e w', ¬ Quiet supply → w'.Idle db → err e w') :
    (engine pg).Leads supply (listGroups tenantID limit offset f) ok err w := by
  have hpage : ¬ (limit < 0 ∨ offset < 0) := by omega
  rw [listGroups, if_neg hpage]
  refine leads_bind.mpr (leads_read hw (fun _ _ => rfl) ?_ herr)
  intro w' hidle
  refine leads_bind.mpr (leads_read hidle (fun _ _ => rfl) ?_ herr)
  intro w'' hidle'
  exact leads_bind.mpr (leads_attachMembers hidle' (fun w3 h3 => hok w3 h3) herr)

end Scimage.Store
