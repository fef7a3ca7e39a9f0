import Scimage.Store.Listing
import Scimage.Store.Membership
import Scimage.Store.Missing

/-! The order in which the members of a group are listed, and the order in which they joined. -/
namespace Scimage.Store

open Txn Engine

variable {pg : Postgres} {db db' : Db} {tenantID id : String} {ids ms : List String} {k a b : Uuid}
  {supply : Nat → Supply Env DbError} {w : StoreWorld} {s : Store} {rec : AuditRecord} {g : Group} {t T : Time}

/-- The users of a group in the order in which their ids are listed. -/
def Db.memberIDs (db : Db) (k : Uuid) : List Uuid :=
  ((db.members.rows.filter fun m => m.groupID = k).insertionSort fun a b => memberBefore a b).map
    MemberRow.userID

theorem membersOf_texts (db : Db) (k : Uuid) : db.membersOf k = (db.memberIDs k).map Uuid.text := by
  rw [Db.membersOf, Db.memberIDs, List.map_map]
  rfl

theorem mem_memberIDs : a ∈ db.memberIDs k ↔ ∃ m ∈ db.members.rows, m.groupID = k ∧ m.userID = a := by
  rw [Db.memberIDs, List.mem_map]
  simp only [List.mem_insertionSort, List.mem_filter, decide_eq_true_eq, and_assoc]

theorem memberIDs_nodup (db : Db) (k : Uuid) : (db.memberIDs k).Nodup := by
  have hnodup := nodup_membersOf db k
  rw [membersOf_texts] at hnodup
  exact hnodup.of_map

/-- When each user joined the group most recently. What it is for the others does not matter. -/
abbrev Joined := Uuid → Time

/-- Who is a member stays one, who is none joins now. -/
def Joined.rejoin (j : Joined) (db : Db) (k : Uuid) (now : Time) : Joined :=
  fun i => if i ∈ db.memberIDs k then j i else now

/-- A list of all the members of the group, in the order in which they joined. -/
def InOrder (db : Db) (k : Uuid) (j : Joined) (ms : List String) : Prop :=
  ∃ is : List Uuid, ms = is.map Uuid.text ∧ is.Nodup ∧
    (∀ i, i ∈ is ↔ ∃ m ∈ db.members.rows, m.groupID = k ∧ m.userID = i) ∧
    is.Pairwise fun a b => j a ≤ j b

/-- The ids name the user, in whatever spelling. -/
def Names (ids : List String) (i : Uuid) : Prop := ∃ s ∈ ids, Uuid.parse s = some i

/-- Of the users that an update asks for, each one that stays has a smaller id than those that joined
after it or join now. -/
def Keeps (db : Db) (k : Uuid) (j : Joined) (ids : List String) : Prop :=
  ∀ a b, Names ids a → Names ids b → a ∈ db.memberIDs k → (b ∈ db.memberIDs k → j a < j b) → a.ble b = true

/-- The calls of a group, one after the other, the last of which took place at `T`: the transaction of
each begins later than that of the one before. Between them anything may happen that leaves the
members of the group alone. -/
inductive Run (pg : Postgres) (tenantID : String) (k : Uuid) (ok : Db → Joined → List String → Prop) :
    Time → Db → Joined → Prop
  | created {db : Db} {w : StoreWorld} {s : Store} {supply : Nat → Supply Env DbError} {g : Group}
      {rec : AuditRecord} {created : Group}
      (hrun : (engine pg).run supply (s.createGroup tenantID g rec).run (World.start db) = (.ok created, w))
      (hk : created.id = k.text) :
      Run pg tenantID k ok created.updatedAt w.db fun _ => created.updatedAt
  | updated {T : Time} {db : Db} {j : Joined} {w : StoreWorld} {s : Store}
      {supply : Nat → Supply Env DbError} {id : String} {g : Group} {rec : AuditRecord} {ch : GroupChange}
      (hR : Run pg tenantID k ok T db j) (hok : ok db j g.members) (hk : Uuid.parse id = some k)
      (hrun : (engine pg).run supply (s.updateGroup tenantID id g rec).run (World.start db) = (.ok ch, w))
      (hlater : T < ch.after.updatedAt) :
      Run pg tenantID k ok ch.after.updatedAt w.db (j.rejoin db k ch.after.updatedAt)
  | refused {T : Time} {db : Db} {j : Joined} {w : StoreWorld} {s : Store}
      {supply : Nat → Supply Env DbError} {id : String} {g : Group} {rec : AuditRecord} {e : StoreError}
      (hR : Run pg tenantID k ok T db j)
      (hrun : (engine pg).run supply (s.updateGroup tenantID id g rec).run (World.start db) = (.error e, w)) :
      Run pg tenantID k ok T w.db j
  | apart {T : Time} {db db' : Db} {j : Joined} (hR : Run pg tenantID k ok T db j)
      (hsame : ∀ m, m.groupID = k → (m ∈ db'.members.rows ↔ m ∈ db.members.rows)) :
      Run pg tenantID k ok T db' j

/-- The lists of members that the calls hand out when the database is as `db` afterwards. -/
inductive Shown (pg : Postgres) (tenantID : String) (k : Uuid) : Db → List String → Prop
  | get {db : Db} {supply : Nat → Supply Env DbError} {id : String} {g : Group}
      (hk : Uuid.parse id = some k) (hrun : returned pg supply (getGroup tenantID id) db = .ok g) :
      Shown pg tenantID k db g.members
  | list {db : Db} {supply : Nat → Supply Env DbError} {limit offset : Int} {f : GroupFilter}
      {gs : List Group} {n : Nat} {g : Group}
      (hrun : returned pg supply (listGroups tenantID limit offset f) db = .ok (gs, n)) (hg : g ∈ gs)
      (hk : g.id = k.text) : Shown pg tenantID k db g.members
  | created {db : Db} {w : StoreWorld} {s : Store} {supply : Nat → Supply Env DbError} {g : Group}
      {rec : AuditRecord} {created : Group}
      (hrun : (engine pg).run supply (s.createGroup tenantID g rec).run (World.start db) = (.ok created, w))
      (hk : created.id = k.text) : Shown pg tenantID k w.db created.members
  | updated {db : Db} {w : StoreWorld} {s : Store} {supply : Nat → Supply Env DbError} {id : String}
      {g : Group} {rec : AuditRecord} {ch : GroupChange} (hk : Uuid.parse id = some k)
      (hrun : (engine pg).run supply (s.updateGroup tenantID id g rec).run (World.start db) = (.ok ch, w)) :
      Shown pg tenantID k w.db ch.after.members

/-! ### What the calls leave -/

theorem leads_ok {c : Call α} {ok : α → StoreWorld → Prop} {err : StoreError → StoreWorld → Prop} {x : α}
    {w' : StoreWorld} (h : (engine pg).Leads supply c ok err w)
    (hrun : (engine pg).run supply c.run w = (.ok x, w')) : ok x w' := by
  unfold Leads at h
  rw [hrun] at h
  exact h

theorem leads_error {c : Call α} {ok : α → StoreWorld → Prop} {err : StoreError → StoreWorld → Prop}
    {e : StoreError} {w' : StoreWorld} (h : (engine pg).Leads supply c ok err w)
    (hrun : (engine pg).run supply c.run w = (.error e, w')) : err e w' := by
  unfold Leads at h
  rw [hrun] at h
  exact h

theorem returned_ok {c : Call α} (ok : α → Prop) {x : α}
    (h : (engine pg).Leads supply c (fun x _ => ok x) (fun _ _ => True) (World.start db))
    (hrun : returned pg supply c db = .ok x) : ok x := by
  have hpair : (engine pg).run supply c.run (World.start db) =
      (.ok x, ((engine pg).run supply c.run (World.start db)).2) := Prod.ext hrun rfl
  exact leads_ok h hpair

/-- The members of a group that has just been written. -/
structure Written (db : Db) (k : Uuid) (ids : List String) (t : Time) (ms : List String) : Prop where
  members : ∀ i, i ∈ db.memberIDs k ↔ Names ids i
  stamp : ∀ m ∈ db.members.rows, m.groupID = k → m.addedAt = t
  shown : ms = db.membersOf k

theorem names_deduped : Names (dedupeNonEmpty ids) a ↔ Names ids a := by
  constructor
  · rintro ⟨s, hs, ha⟩
    exact ⟨s, (mem_dedupeNonEmpty.mp hs).1, ha⟩
  · rintro ⟨s, hs, ha⟩
    refine ⟨s, mem_dedupeNonEmpty.mpr ⟨hs, ?_⟩, ha⟩
    rintro rfl
    cases ha

theorem names_parsed {ks : List Uuid} (hks : parseIDs ids = .ok ks) : Names ids a ↔ a ∈ ks := by
  have hmap := parseIDs_ok.mp hks
  constructor
  · rintro ⟨s, hs, ha⟩
    have hmem : some a ∈ ks.map some := hmap ▸ ha ▸ List.mem_map_of_mem hs
    simpa using hmem
  · intro ha
    have hmem : some a ∈ ids.map Uuid.parse := hmap ▸ List.mem_map_of_mem ha
    obtain ⟨s, hs, hparse⟩ := List.mem_map.mp hmem
    exact ⟨s, hs, hparse⟩

theorem exchanged_written {v v' : Db} (hk : Uuid.parse id = some k)
    (h : Exchanged pg t tenantID id ids v v') (hlogged : Logged v' db) :
    Written db k ids t (v'.membersAt id) := by
  obtain ⟨ks, hks, hcount, hrows⟩ := exchanged_rows hk h
  have hlen : ks.length = (dedupeNonEmpty ids).length := by
    have hmap := congrArg List.length (parseIDs_ok.mp hks)
    rw [List.length_map, List.length_map] at hmap
    exact hmap.symm
  have hperm := newcomers_ids (hcount.trans hlen.symm)
  obtain ⟨log, queue, rfl⟩ := hlogged
  refine ⟨fun i => ?_, fun m hm hgroup => ?_, ?_⟩
  · rw [← names_deduped, names_parsed hks, ← hperm.mem_iff, mem_memberIDs, List.mem_map]
    constructor
    · rintro ⟨m, hm, hgroup, rfl⟩
      exact ⟨m, ((hrows m).mp hm).resolve_right fun h => h.2 hgroup, rfl⟩
    · rintro ⟨m, hm, rfl⟩
      refine ⟨m, (hrows m).mpr (Or.inl hm), ?_, rfl⟩
      obtain ⟨u, -, rfl⟩ := List.mem_map.mp hm
      rfl
  · have hjoined := ((hrows m).mp hm).resolve_right fun h => h.2 hgroup
    obtain ⟨u, -, rfl⟩ := List.mem_map.mp hjoined
    rfl
  · rw [Db.membersAt, hk]
    rfl

theorem created_written {created : Group}
    (hrun : (engine pg).run supply (s.createGroup tenantID g rec).run (World.start db) = (.ok created, w))
    (hk : created.id = k.text) : Written w.db k g.members created.updatedAt created.members := by
  have hleads : (engine pg).Leads supply (s.createGroup tenantID g rec)
      (fun c w => c.id = k.text → Written w.db k g.members c.updatedAt c.members) (fun _ _ => True)
      (World.start db) := by
    refine leads_createGroup ⟨rfl, rfl⟩ ?_ fun _ _ _ _ _ => trivial
    intro now env created ws v db' w' hx hex hlogged hidle hid
    obtain ⟨-, rfl, -⟩ := execInsertGroup_ok hx
    rw [hidle.1]
    have hk : Uuid.parse (scanGroup (insertedGroup now tenantID env.uuid g)).id = some k := by
      rw [hid, Uuid.parse_text]
    exact exchanged_written hk hex hlogged
  exact leads_ok hleads hrun hk

theorem updated_written {ch : GroupChange} (hk : Uuid.parse id = some k)
    (hrun : (engine pg).run supply (s.updateGroup tenantID id g rec).run (World.start db) = (.ok ch, w)) :
    Written w.db k g.members ch.after.updatedAt ch.after.members := by
  have hleads : (engine pg).Leads supply (s.updateGroup tenantID id g rec)
      (fun ch w => Written w.db k g.members ch.after.updatedAt ch.after.members) (fun _ _ => True)
      (World.start db) := by
    refine leads_updateGroup ⟨rfl, rfl⟩ ?_ fun _ _ _ _ _ => trivial
    intro now before after ws v db' w' hx hex hlogged hidle
    obtain ⟨c, -, -, rfl, -⟩ := execUpdateGroup_ok.mp hx
    rw [hidle.1]
    exact exchanged_written hk hex hlogged
  exact leads_ok hleads hrun

theorem refused_members {e : StoreError}
    (hrun : (engine pg).run supply (s.updateGroup tenantID id g rec).run (World.start db) = (.error e, w)) :
    w.db.members = db.members := by
  have hleads : (engine pg).Leads supply (s.updateGroup tenantID id g rec) (fun _ _ => True)
      (fun _ w => w.db.members = db.members) (World.start db) := by
    refine leads_updateGroup ⟨rfl, rfl⟩ (fun _ _ _ _ _ _ _ _ _ _ _ => trivial) ?_
    intro e db' w' hfails hidle
    rw [hidle.1]
    rcases hfails.change with rfl | ⟨now, serial, target, detail, rfl⟩
    · rfl
    · rfl
  exact leads_error hleads hrun

theorem shown_membersOf (h : Shown pg tenantID k db ms) : ms = db.membersOf k := by
  cases h with
  | get hk hrun =>
    refine returned_ok (fun g => g.members = db.membersOf k) ?_ hrun
    refine leads_getGroup ⟨rfl, rfl⟩ ?_ fun _ _ _ _ => trivial
    intro r w' _ _
    rw [Db.membersAt, hk]
    rfl
  | @list _ supply limit offset f gs n g hrun hg hk =>
    refine returned_ok (fun gs => ∀ g ∈ gs.1, g.id = k.text → g.members = db.membersOf k) ?_ hrun g hg hk
    by_cases hpage : limit < 0 ∨ offset < 0
    · rw [listGroups, if_pos hpage]
      exact leads_bind.mpr trivial
    · refine leads_listGroups (by omega) (by omega) ⟨rfl, rfl⟩ ?_ fun _ _ _ _ => trivial
      intro w' _ g hg hid
      obtain ⟨r, -, rfl⟩ := List.mem_map.mp hg
      have hr : r.id = k := Uuid.text_injective hid
      rw [← hr]
      rfl
  | created hrun hk => exact (created_written hrun hk).shown
  | updated hk hrun => exact (updated_written hk hrun).shown

theorem inOrder_iff {j : Joined} (h : Shown pg tenantID k db ms) :
    InOrder db k j ms ↔ (db.memberIDs k).Pairwise fun a b => j a ≤ j b := by
  have hms : ms = (db.memberIDs k).map Uuid.text := (shown_membersOf h).trans (membersOf_texts db k)
  constructor
  · rintro ⟨is, his, -, -, hpairs⟩
    have heq : is = db.memberIDs k :=
      List.map_injective_iff.mpr (fun _ _ => Uuid.text_injective) (his.symm.trans hms)
    rwa [← heq]
  · intro hpairs
    exact ⟨db.memberIDs k, hms, memberIDs_nodup db k, fun _ => mem_memberIDs, hpairs⟩

/-- What leaves the rows of the group alone leaves their order alone. -/
theorem memberIDs_apart (h : ∀ m, m.groupID = k → (m ∈ db'.members.rows ↔ m ∈ db.members.rows)) :
    db'.memberIDs k = db.memberIDs k := by
  have hsorted := fun d : Db => stamped_sorted MemberRow.addedAt MemberRow.userID
    (d.members.rows.filter fun m => m.groupID = k)
  have hmem : ∀ d : Db, ∀ m, m ∈ (d.members.rows.filter fun m => m.groupID = k).insertionSort
      (fun a b => memberBefore a b) ↔ m ∈ d.members.rows ∧ m.groupID = k := by
    intro d m
    rw [List.mem_insertionSort, List.mem_filter, decide_eq_true_eq]
  have hrows : ∀ m, m ∈ db'.members.rows ∧ m.groupID = k ↔ m ∈ db.members.rows ∧ m.groupID = k :=
    fun m => ⟨fun hm => ⟨(h m hm.2).mp hm.1, hm.2⟩, fun hm => ⟨(h m hm.2).mpr hm.1, hm.2⟩⟩
  have hnodup : ∀ d : Db, ((d.members.rows.filter fun m => m.groupID = k).insertionSort
      fun a b => memberBefore a b).Nodup := by
    intro d
    exact (List.perm_insertionSort _ _).nodup_iff.mpr (List.Nodup.filter _ (List.Nodup.of_map _ d.members.nodup))
  rw [Db.memberIDs, Db.memberIDs]
  congr 1
  refine List.Perm.eq_of_pairwise ?_ (hsorted db').2 (hsorted db).2 ?_
  · intro a b ha hb hab hba
    obtain ⟨harow, hak⟩ := (hrows a).mp ((hmem db' a).mp ha)
    obtain ⟨hbrow, hbk⟩ := (hmem db b).mp hb
    have hkey : a.key = b.key := by
      rw [MemberRow.key, MemberRow.key, hak, hbk, stampedBefore_antisymm hab hba]
    exact List.inj_on_of_nodup_map db.members.nodup harow hbrow hkey
  · refine (List.perm_ext_iff_of_nodup (hnodup db') (hnodup db)).mpr fun m => ?_
    rw [hmem, hmem, hrows]

/-- Rows that were all written at once are listed by the ids of their users. -/
theorem memberIDs_byID (h : ∀ m ∈ db.members.rows, m.groupID = k → m.addedAt = t) :
    (db.memberIDs k).Pairwise fun a b => a.ble b = true := by
  obtain ⟨hperm, hsorted⟩ := stamped_sorted MemberRow.addedAt MemberRow.userID
    (db.members.rows.filter fun m => m.groupID = k)
  rw [Db.memberIDs, List.pairwise_map]
  refine hsorted.imp_of_mem ?_
  intro a b ha hb hab
  have hstamp : ∀ m, m ∈ (db.members.rows.filter fun m => m.groupID = k).insertionSort
      (fun a b => memberBefore a b) → m.addedAt = t := by
    intro m hm
    obtain ⟨hrow, hgroup⟩ := List.mem_filter.mp (hperm.mem_iff.mp hm)
    exact h m hrow (of_decide_eq_true hgroup)
  rw [stampedBefore_iff, hstamp a ha, hstamp b hb] at hab
  rw [Uuid.ble_iff]
  rcases hab with hlt | ⟨-, hble⟩
  · omega
  · exact hble

/-- Two members of a list in some order stand in it one way or the other. -/
theorem pairwise_cases {R : Uuid → Uuid → Prop} {is : List Uuid} (h : is.Pairwise R) (ha : a ∈ is) (hb : b ∈ is)
    (hne : a ≠ b) : R a b ∨ R b a := by
  have : Std.Symm fun a b => R a b ∨ R b a := ⟨fun _ _ h => h.symm⟩
  exact (h.imp fun hab => Or.inl hab : is.Pairwise fun a b => R a b ∨ R b a).forall ha hb hne

theorem rejoin_lt_iff {j : Joined} (hj : ∀ i ∈ db.memberIDs k, j i ≤ T) (hlater : T < t) :
    j.rejoin db k t a < j.rejoin db k t b ↔
      a ∈ db.memberIDs k ∧ (b ∈ db.memberIDs k → j a < j b) := by
  unfold Joined.rejoin
  by_cases ha : a ∈ db.memberIDs k
  · have hless : j a < t := Int.lt_of_le_of_lt (hj a ha) hlater
    by_cases hb : b ∈ db.memberIDs k
    · simp [ha, hb]
    · simp [ha, hb, hless]
  · by_cases hb : b ∈ db.memberIDs k
    · have hless : j b < t := Int.lt_of_le_of_lt (hj b hb) hlater
      have hnot : ¬ t < j b := Int.not_lt.mpr (Int.le_of_lt hless)
      simp [ha, hb, hnot]
    · simp [ha, hb]

/-- An update leaves the members in the order in which they joined if and only if that is the order of
their ids. -/
theorem written_ordered_iff {j : Joined} (hw : Written db' k ids t ms) (hj : ∀ i ∈ db.memberIDs k, j i ≤ T)
    (hlater : T < t) :
    ((db'.memberIDs k).Pairwise fun a b => j.rejoin db k t a ≤ j.rejoin db k t b) ↔ Keeps db k j ids := by
  have hble := memberIDs_byID hw.stamp
  constructor
  · intro hpairs a b ha hb hstays hlt
    have hless : j.rejoin db k t a < j.rejoin db k t b := (rejoin_lt_iff hj hlater).mpr ⟨hstays, hlt⟩
    have hne : a ≠ b := by
      rintro rfl
      exact Int.lt_irrefl _ hless
    rcases pairwise_cases (hble.and hpairs) ((hw.members a).mpr ha) ((hw.members b).mpr hb) hne with h | h
    · exact h.1
    · exact (Int.not_le.mpr hless h.2).elim
  · intro hkeeps
    refine (hble.and (memberIDs_nodup db' k)).imp_of_mem ?_
    intro a b ha hb hab
    by_contra hnot
    have hless : j.rejoin db k t b < j.rejoin db k t a := Int.not_le.mp hnot
    obtain ⟨hstays, hlt⟩ := (rejoin_lt_iff hj hlater).mp hless
    have hback := hkeeps b a ((hw.members b).mp hb) ((hw.members a).mp ha) hstays hlt
    exact hab.2 (Uuid.not_lt_antisymm (Uuid.ble_iff.mp hab.1) (Uuid.ble_iff.mp hback))

/-! ### Runs -/

variable {ok : Db → Joined → List String → Prop} {j : Joined}

/-- No member has joined after the last call. -/
theorem run_joined (h : Run pg tenantID k ok T db j) : ∀ i ∈ db.memberIDs k, j i ≤ T := by
  induction h with
  | created hrun hk =>
    intro i _
    exact Int.le_refl _
  | updated hR hok hk hrun hlater ih =>
    intro i _
    unfold Joined.rejoin
    split_ifs with hi
    · exact Int.le_of_lt (Int.lt_of_le_of_lt (ih i hi) hlater)
    · exact Int.le_refl _
  | refused hR hrun ih =>
    rw [Db.memberIDs, refused_members hrun]
    exact ih
  | apart hR hsame ih =>
    rw [memberIDs_apart hsame]
    exact ih

theorem run_ordered (h : Run pg tenantID k (fun db j ids => Keeps db k j ids) T db j) :
    (db.memberIDs k).Pairwise fun a b => j a ≤ j b := by
  induction h with
  | created hrun hk =>
    exact (memberIDs_byID (created_written hrun hk).stamp).imp fun _ => Int.le_refl _
  | updated hR hok hk hrun hlater ih =>
    exact (written_ordered_iff (updated_written hk hrun) (run_joined hR) hlater).mpr hok
  | refused hR hrun ih =>
    rw [Db.memberIDs, refused_members hrun]
    exact ih
  | apart hR hsame ih =>
    rw [memberIDs_apart hsame]
    exact ih

/-- In a run whose updates all keep the order of the ids, every list of the members is in the order in
which they joined; and an update that does not, after whatever run, hands out one that is not. -/
theorem members_in_order (pg : Postgres) (tenantID : String) (k : Uuid) :
    (∀ T db j, Run pg tenantID k (fun db j ids => Keeps db k j ids) T db j →
      ∀ ms, Shown pg tenantID k db ms → InOrder db k j ms) ∧
    ∀ T db j, Run pg tenantID k (fun _ _ _ => True) T db j →
      ∀ (s : Store) (supply : Nat → Supply Env DbError) (id : String) (g : Group) (rec : AuditRecord)
        (ch : GroupChange) (w : StoreWorld), Uuid.parse id = some k →
        (engine pg).run supply (s.updateGroup tenantID id g rec).run (World.start db) = (.ok ch, w) →
        T < ch.after.updatedAt →
        (InOrder w.db k (j.rejoin db k ch.after.updatedAt) ch.after.members ↔ Keeps db k j g.members) := by
  constructor
  · intro T db j hR ms hshown
    exact (inOrder_iff hshown).mpr (run_ordered hR)
  · intro T db j hR s supply id g rec ch w hk hrun hlater
    rw [inOrder_iff (Shown.updated hk hrun)]
    exact written_ordered_iff (updated_written hk hrun) (run_joined hR) hlater

/-! ### A group of two users -/

def laterUuid : Uuid := ⟨List.replicate 8 ⟨4, by decide⟩, rfl⟩

def teamUuid : Uuid := ⟨List.replicate 8 ⟨3, by decide⟩, rfl⟩

def annRow : UserRow := insertedUser 1 "tenant" someUuid (newUser "ann") none

def bobRow : UserRow := insertedUser 2 "tenant" laterUuid (newUser "bob") none

def twoUsers : Db := { Db.empty with users := (Db.empty.users.put annRow).put bobRow }

def team (members : List String) : Group := ⟨"", none, "team", members, 0, 0⟩

def supplyAt (t : Time) (n : Nat) : Supply Env DbError := ⟨⟨teamUuid, n⟩, t, t, none⟩

abbrev teamCreated (members : List String) : Except StoreError Group × StoreWorld :=
  (engine plainText).run (supplyAt 5) (createGroup ⟨false⟩ "tenant" (team members) ⟨"key", "", "tenant"⟩).run
    (World.start twoUsers)

abbrev teamUpdated (before members : List String) : Except StoreError GroupChange × StoreWorld :=
  (engine plainText).run (supplyAt 6)
    (updateGroup ⟨false⟩ "tenant" teamUuid.text (team members) ⟨"key", "", "tenant"⟩).run
    (World.start (teamCreated before).2.db)

/-- The team as the store hands it out. -/
def teamOf (members : List String) (updatedAt : Time) : Group :=
  ⟨teamUuid.text, none, "team", members, 5, updatedAt⟩

def teamJoined (before : List String) : Joined := Joined.rejoin (fun _ => 5) (teamCreated before).2.db teamUuid 6

theorem eq_of_fst {x : Except StoreError β × StoreWorld} {y : Except StoreError β} (h : x.1 = y) :
    x = (y, x.2) := Prod.ext h rfl

theorem team_run (ok : Db → Joined → List String → Prop) (before members after : List String)
    (hcreated : (teamCreated before).1 = .ok (teamOf before 5))
    (hupdated : (teamUpdated before members).1 = .ok ⟨teamOf before 5, teamOf after 6⟩)
    (hok : ok (teamCreated before).2.db (fun _ => 5) members) :
    Run plainText "tenant" teamUuid ok 6 (teamUpdated before members).2.db (teamJoined before) ∧
      Shown plainText "tenant" teamUuid (teamUpdated before members).2.db after := by
  have hfirst : teamCreated before = (.ok (teamOf before 5), (teamCreated before).2) := eq_of_fst hcreated
  have hsecond : teamUpdated before members =
      (.ok ⟨teamOf before 5, teamOf after 6⟩, (teamUpdated before members).2) := eq_of_fst hupdated
  have hlater : (5 : Time) < 6 := by decide
  have hparse : Uuid.parse teamUuid.text = some teamUuid := Uuid.parse_text teamUuid
  exact ⟨.updated (.created hfirst rfl) hok hparse hsecond hlater, .updated hparse hsecond⟩

theorem team_in_order : InOrder (teamUpdated [someUuid.text] [someUuid.text, laterUuid.text]).2.db teamUuid
    (teamJoined [someUuid.text]) [someUuid.text, laterUuid.text] := by
  have hkeeps : Keeps (teamCreated [someUuid.text]).2.db teamUuid (fun _ => 5)
      [someUuid.text, laterUuid.text] := by
    intro a b _ hb hstays _
    have hmembers : (teamCreated [someUuid.text]).2.db.memberIDs teamUuid = [someUuid] := by rfl
    rw [hmembers] at hstays
    obtain rfl := List.mem_singleton.mp hstays
    obtain ⟨s, hs, hparse⟩ := hb
    rcases List.mem_pair.mp hs with rfl | rfl
    · rw [Uuid.parse_text] at hparse
      cases hparse
      rfl
    · rw [Uuid.parse_text] at hparse
      cases hparse
      rfl
  obtain ⟨hrun, hshown⟩ := team_run (fun db j ids => Keeps db teamUuid j ids) [someUuid.text]
    [someUuid.text, laterUuid.text] [someUuid.text, laterUuid.text] (by rfl) (by rfl) hkeeps
  exact (members_in_order plainText "tenant" teamUuid).1 _ _ _ hrun _ hshown

/-- The user that was there first is listed after the one that the update adds. -/
theorem team_out_of_order :
    let db := (teamUpdated [laterUuid.text] [laterUuid.text, someUuid.text]).2.db
    Run plainText "tenant" teamUuid (fun _ _ _ => True) 6 db (teamJoined [laterUuid.text]) ∧
      Shown plainText "tenant" teamUuid db [someUuid.text, laterUuid.text] ∧
      ¬ InOrder db teamUuid (teamJoined [laterUuid.text]) [someUuid.text, laterUuid.text] := by
  obtain ⟨hrun, hshown⟩ := team_run (fun _ _ _ => True) [laterUuid.text] [laterUuid.text, someUuid.text]
    [someUuid.text, laterUuid.text] (by rfl) (by rfl) trivial
  refine ⟨hrun, hshown, ?_⟩
  rw [inOrder_iff hshown]
  have hmembers : (teamUpdated [laterUuid.text] [laterUuid.text, someUuid.text]).2.db.memberIDs teamUuid =
      [someUuid, laterUuid] := by rfl
  have hstayed : teamJoined [laterUuid.text] laterUuid = 5 := by rfl
  have hadded : teamJoined [laterUuid.text] someUuid = 6 := by rfl
  rw [hmembers, List.pairwise_pair, hstayed, hadded]
  decide

end Scimage.Store
