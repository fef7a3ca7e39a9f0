import Scimage.Store.Quiet

/-! What an exchange leaves as the members of a group. -/
namespace Scimage.Store

open Txn Engine

variable {pg : Postgres} {db v v' : Db} {tenantID id i : String} {ids seen : List String} {k : Uuid}
  {now : Time}

/-! ### The distinct ids -/

theorem mem_dedupe : i ∈ dedupe seen ids ↔ i ∈ ids ∧ i ≠ "" ∧ i ∉ seen := by
  induction ids generalizing seen with
  | nil => simp [dedupe]
  | cons s ss ih =>
    rw [dedupe]
    by_cases hs : s = "" ∨ s ∈ seen
    · rw [if_pos hs, ih]
      constructor
      · rintro ⟨hi, hne, hseen⟩
        exact ⟨List.mem_cons_of_mem s hi, hne, hseen⟩
      · rintro ⟨hi, hne, hseen⟩
        rcases List.mem_cons.mp hi with rfl | hi
        · exact (hs.elim hne hseen).elim
        · exact ⟨hi, hne, hseen⟩
    · rw [not_or] at hs
      rw [if_neg (not_or.mpr hs), List.mem_cons, ih]
      by_cases hi : i = s
      · subst hi
        simp [hs.1, hs.2]
      · simp [hi]

theorem nodup_dedupe : (dedupe seen ids).Nodup := by
  induction ids generalizing seen with
  | nil => exact List.nodup_nil
  | cons s ss ih =>
    rw [dedupe]
    by_cases hs : s = "" ∨ s ∈ seen
    · rw [if_pos hs]
      exact ih
    · rw [if_neg hs, List.nodup_cons]
      exact ⟨fun hmem => (mem_dedupe.mp hmem).2.2 List.mem_cons_self, ih⟩

theorem mem_dedupeNonEmpty : i ∈ dedupeNonEmpty ids ↔ i ∈ ids ∧ i ≠ "" := by
  rw [dedupeNonEmpty, mem_dedupe]
  simp

theorem nodup_dedupeNonEmpty : (dedupeNonEmpty ids).Nodup := nodup_dedupe

/-! ### The rows of `group_members` -/

theorem mem_dropped {ms : List MemberRow} {m : MemberRow} :
    m ∈ ((engine pg).applyAll v (ms.map .dropMember)).members.rows ↔
      m ∈ v.members.rows ∧ m.key ∉ ms.map MemberRow.key := by
  induction ms generalizing v with
  | nil => simp
  | cons x xs ih =>
    rw [List.map_cons, applyAll_cons, ih]
    change m ∈ (v.members.remove x.key).rows ∧ _ ↔ _
    simp only [Relational.Table.remove, Relational.Table.filter, List.mem_filter, decide_eq_true_eq,
      List.map_cons, List.mem_cons, not_or, and_assoc]

theorem mem_joined {ms : List MemberRow} (hn : (ms.map MemberRow.key).Nodup) {m : MemberRow} :
    m ∈ ((engine pg).applyAll v (ms.map .putMember)).members.rows ↔
      m ∈ ms ∨ m ∈ v.members.rows ∧ m.key ∉ ms.map MemberRow.key := by
  induction ms generalizing v with
  | nil => simp
  | cons x xs ih =>
    rw [List.map_cons, List.nodup_cons] at hn
    rw [List.map_cons, applyAll_cons, ih hn.2]
    change m ∈ xs ∨ m ∈ (v.members.put x).rows ∧ _ ↔ _
    rw [Relational.Table.mem_put, List.map_cons, List.mem_cons, List.mem_cons, not_or]
    constructor
    · rintro (hm | ⟨rfl | ⟨hm, hx⟩, hxs⟩)
      · exact Or.inl (Or.inr hm)
      · exact Or.inl (Or.inl rfl)
      · exact Or.inr ⟨hm, hx, hxs⟩
    · rintro ((rfl | hm) | ⟨hm, hx, hxs⟩)
      · exact Or.inr ⟨Or.inl rfl, hn.1⟩
      · exact Or.inl hm
      · exact Or.inr ⟨Or.inr ⟨hm, hx⟩, hxs⟩

theorem exchanged_frame (hk : Uuid.parse id = some k) (h : Exchanged pg now tenantID id ids v v') :
    v'.users = v.users ∧ v'.groups = v.groups ∧ v'.attributes = v.attributes := by
  obtain ⟨n, ws, hclear, hrest⟩ := h
  have hcleared := memberOf_frame pg (clearMembers_ok hk hclear) v
  by_cases hd : (dedupeNonEmpty ids).isEmpty
  · rw [if_pos hd] at hrest
    rw [hrest]
    exact hcleared
  · rw [if_neg hd] at hrest
    obtain ⟨ws', hadd, rfl⟩ := hrest
    have hadded := memberOf_frame pg (addMembers_ok hk hadd) ((engine pg).applyAll v ws)
    exact ⟨hadded.1.trans hcleared.1, hadded.2.1.trans hcleared.2.1,
      hadded.2.2.trans hcleared.2.2⟩

/-- The users of the tenant among the ids, each joined to the group. -/
def newcomers (db : Db) (now : Time) (k : Uuid) (tenantID : String) (ks : List Uuid) : List MemberRow :=
  (db.users.rows.filter fun u => u.tenantID = tenantID ∧ u.id ∈ ks).map fun u =>
    ⟨k, u.id, tenantID, now⟩

theorem newcomers_nodup {ks : List Uuid} :
    ((newcomers db now k tenantID ks).map MemberRow.userID).Nodup := by
  rw [newcomers, List.map_map]
  exact (List.Nodup.sublist (List.Sublist.map _ List.filter_sublist) db.users.nodup)

theorem newcomers_key {ks : List Uuid} :
    ((newcomers db now k tenantID ks).map MemberRow.key).Nodup := by
  have hkey : (newcomers db now k tenantID ks).map MemberRow.key =
      ((newcomers db now k tenantID ks).map MemberRow.userID).map (Prod.mk k) := by
    simp [newcomers, MemberRow.key]
  rw [hkey]
  exact newcomers_nodup.map (Prod.mk_right_injective k)

theorem cleared_ok {n : Nat} {ws : List Write} (hk : Uuid.parse id = some k)
    (h : execClearMembers id v = .ok (n, ws)) :
    ws = (v.members.rows.filter fun m => m.groupID = k).map .dropMember := by
  rw [execClearMembers, parseID, hk] at h
  cases h
  rfl

theorem mem_cleared {n : Nat} {ws : List Write} (hk : Uuid.parse id = some k)
    (h : execClearMembers id v = .ok (n, ws)) {m : MemberRow} :
    m ∈ ((engine pg).applyAll v ws).members.rows ↔ m ∈ v.members.rows ∧ m.groupID ≠ k := by
  rw [cleared_ok hk h, mem_dropped]
  refine and_congr_right fun hm => not_congr ?_
  constructor
  · intro hkey
    obtain ⟨x, hx, he⟩ := List.mem_map.mp hkey
    have hgroup : x.groupID = m.groupID := congrArg Prod.fst he
    rw [← hgroup]
    simpa using (List.mem_filter.mp hx).2
  · intro hgroup
    exact List.mem_map_of_mem (List.mem_filter.mpr ⟨hm, by simpa using hgroup⟩)

theorem added_ok {n : Nat} {ws : List Write} (hk : Uuid.parse id = some k)
    (h : execAddMembers now id tenantID ids v = .ok (n, ws)) :
    ∃ ks, parseIDs ids = .ok ks ∧ ws = (newcomers v now k tenantID ks).map .putMember ∧
      n = (newcomers v now k tenantID ks).length := by
  rw [execAddMembers, parseID, hk] at h
  cases hks : parseIDs ids with
  | error e =>
    rw [hks] at h
    cases h
  | ok ks =>
    rw [hks] at h
    dsimp only at h
    refine ⟨ks, rfl, ?_⟩
    split_ifs at h
    · cases h
      exact ⟨rfl, rfl⟩

/-- The rows of the group are those of the users that joined, and the other groups keep theirs. -/
theorem exchanged_rows (hk : Uuid.parse id = some k) (h : Exchanged pg now tenantID id ids v v') :
    ∃ ks, parseIDs (dedupeNonEmpty ids) = .ok ks ∧
      (newcomers v now k tenantID ks).length = (dedupeNonEmpty ids).length ∧
      ∀ m, m ∈ v'.members.rows ↔
        m ∈ newcomers v now k tenantID ks ∨ m ∈ v.members.rows ∧ m.groupID ≠ k := by
  obtain ⟨n, ws, hclear, hrest⟩ := h
  have hcleared : ∀ m, m ∈ ((engine pg).applyAll v ws).members.rows ↔
      m ∈ v.members.rows ∧ m.groupID ≠ k := fun _ => mem_cleared hk hclear
  by_cases hd : (dedupeNonEmpty ids).isEmpty
  · rw [if_pos hd] at hrest
    subst hrest
    rw [List.isEmpty_iff.mp hd]
    have hnone : newcomers v now k tenantID [] = [] := by simp [newcomers]
    refine ⟨[], rfl, by rw [hnone]; rfl, fun m => ?_⟩
    rw [hcleared, hnone]
    simp
  · rw [if_neg hd] at hrest
    obtain ⟨ws', hadd, rfl⟩ := hrest
    obtain ⟨ks, hks, hws, hcount⟩ := added_ok hk hadd
    have husers := (memberOf_frame pg (clearMembers_ok hk hclear) v).1
    have hsame : newcomers ((engine pg).applyAll v ws) now k tenantID ks =
        newcomers v now k tenantID ks := by
      rw [newcomers, husers, ← newcomers]
    refine ⟨ks, hks, by rw [hcount, hsame], fun m => ?_⟩
    rw [hws, mem_joined newcomers_key, hcleared, hsame]
    refine or_congr_right ⟨fun h => h.1, fun h => ⟨h, ?_⟩⟩
    intro hkey
    obtain ⟨x, hx, he⟩ := List.mem_map.mp hkey
    obtain ⟨u, -, rfl⟩ := List.mem_map.mp hx
    exact h.2 (congrArg Prod.fst he).symm

/-! ### The members are the ids -/

/-- Every id is the text of a UUID as PostgreSQL writes it, or of none. -/
def Canonical (ids : List String) : Prop :=
  ∀ i ∈ ids, i ≠ "" → Uuid.parse i = none ∨ ∃ k : Uuid, i = k.text

def Db.IsUserOf (db : Db) (tenantID id : String) : Prop :=
  ∃ u ∈ db.users.rows, u.tenantID = tenantID ∧ u.id.text = id

theorem eq_texts_of_parseIDs {ks : List Uuid} (hids : ∀ i ∈ ids, Uuid.parse i = none ∨ ∃ k : Uuid, i = k.text)
    (h : parseIDs ids = .ok ks) : ids = ks.map Uuid.text := by
  induction ids generalizing ks with
  | nil =>
    cases h
    rfl
  | cons i is ih =>
    rw [parseIDs, List.mapM_cons] at h
    rcases hids i List.mem_cons_self with hi | ⟨k, rfl⟩
    · rw [parseID, hi] at h
      cases h
    · rw [parseID, Uuid.parse_text] at h
      cases hrest : is.mapM parseID with
      | error e =>
        rw [hrest] at h
        cases h
      | ok ks' =>
        rw [hrest] at h
        cases h
        rw [List.map_cons, ← ih (fun i hi => hids i (List.mem_cons_of_mem _ hi)) hrest]

theorem parseIDs_ok {ids : List String} {ks : List Uuid} :
    parseIDs ids = .ok ks ↔ ids.map Uuid.parse = ks.map some := by
  induction ids generalizing ks with
  | nil =>
    constructor
    · intro h
      cases h
      rfl
    · intro h
      obtain rfl := List.map_eq_nil_iff.mp h.symm
      rfl
  | cons i is ih =>
    rw [parseIDs, List.mapM_cons, List.map_cons]
    cases hi : Uuid.parse i with
    | none =>
      rw [parseID, hi]
      constructor
      · intro h
        cases h
      · cases ks with
        | nil =>
          intro h
          cases h
        | cons k ks =>
          intro h
          cases h
    | some k =>
      rw [parseID, hi]
      constructor
      · intro h
        cases hrest : is.mapM parseID with
        | error e =>
          rw [hrest] at h
          cases h
        | ok ks' =>
          rw [hrest] at h
          cases h
          rw [List.map_cons, ih.mp hrest]
      · intro h
        cases ks with
        | nil => cases h
        | cons k' ks =>
          rw [List.map_cons] at h
          obtain ⟨hk, hks⟩ := List.cons.inj h
          cases hk
          have hrest : is.mapM parseID = .ok ks := ih.mpr hks
          rw [hrest]
          rfl

theorem parseIDs_error {e : DbError} (h : parseIDs ids = .error e) : e = invalidText := by
  induction ids with
  | nil => cases h
  | cons i is ih =>
    rw [parseIDs, List.mapM_cons] at h
    cases hi : Uuid.parse i with
    | none =>
      rw [parseID, hi] at h
      cases h
      rfl
    | some k =>
      rw [parseID, hi] at h
      cases hrest : is.mapM parseID with
      | error e' =>
        rw [hrest] at h
        cases h
        exact ih hrest
      | ok ks =>
        rw [hrest] at h
        cases h

theorem mem_membersOf : i ∈ db.membersOf k ↔ ∃ m ∈ db.members.rows, m.groupID = k ∧ m.userID.text = i := by
  rw [Db.membersOf, List.mem_map]
  simp only [List.mem_insertionSort, List.mem_filter, decide_eq_true_eq, and_assoc]

theorem nodup_membersOf (db : Db) (k : Uuid) : (db.membersOf k).Nodup := by
  have hperm := List.perm_insertionSort (fun a b => memberBefore a b = true)
    (db.members.rows.filter fun m => m.groupID = k)
  rw [Db.membersOf, (hperm.map _).nodup_iff]
  refine List.Nodup.map_on ?_ (List.Nodup.filter _ (List.Nodup.of_map _ db.members.nodup))
  intro a ha b hb htext
  have hgroup : ∀ m ∈ db.members.rows.filter (fun m => m.groupID = k), m.groupID = k :=
    fun m hm => by simpa using (List.mem_filter.mp hm).2
  refine List.inj_on_of_nodup_map db.members.nodup (List.mem_filter.mp ha).1 (List.mem_filter.mp hb).1 ?_
  rw [MemberRow.key, MemberRow.key, hgroup a ha, hgroup b hb, Uuid.text_injective htext]

/-- The members of the group are the distinct non-empty ids, users of the tenant all of them. -/
structure Requested (db : Db) (tenantID : String) (k : Uuid) (ids : List String) : Prop where
  distinct : (db.membersOf k).Nodup
  exact : ∀ i, i ∈ db.membersOf k ↔ i ∈ ids ∧ i ≠ ""
  users : ∀ i ∈ db.membersOf k, db.IsUserOf tenantID i

theorem newcomers_ids {ks : List Uuid}
    (hcount : (newcomers v now k tenantID ks).length = ks.length) :
    ((newcomers v now k tenantID ks).map MemberRow.userID).Perm ks := by
  have hsub : (newcomers v now k tenantID ks).map MemberRow.userID ⊆ ks := by
    intro x hx
    obtain ⟨m, hm, rfl⟩ := List.mem_map.mp hx
    obtain ⟨u, hu, rfl⟩ := List.mem_map.mp hm
    have hp := (List.mem_filter.mp hu).2
    simp only [decide_eq_true_eq] at hp
    exact hp.2
  refine (newcomers_nodup.subperm hsub).perm_of_length_le ?_
  rw [List.length_map, hcount]

/-- The members of the group are now the users that the ids name, whatever the spelling. -/
theorem exchanged_members (hk : Uuid.parse id = some k) (h : Exchanged pg now tenantID id ids v v')
    {ks : List Uuid} (hks : parseIDs (dedupeNonEmpty ids) = .ok ks)
    (hlen : ks.length = (dedupeNonEmpty ids).length) :
    ((newcomers v now k tenantID ks).map MemberRow.userID).Perm ks ∧
      ∀ i, i ∈ v'.membersOf k ↔ ∃ x ∈ ks, x.text = i := by
  obtain ⟨ks', hks', hcount, hrows⟩ := exchanged_rows hk h
  cases hks.symm.trans hks'
  have hperm := newcomers_ids (hcount.trans hlen.symm)
  refine ⟨hperm, fun i => mem_membersOf.trans ?_⟩
  constructor
  · rintro ⟨m, hm, hgroup, rfl⟩
    have hjoined := ((hrows m).mp hm).resolve_right fun h => h.2 hgroup
    exact ⟨m.userID, hperm.mem_iff.mp (List.mem_map_of_mem hjoined), rfl⟩
  · rintro ⟨x, hx, rfl⟩
    obtain ⟨m, hm, rfl⟩ := List.mem_map.mp (hperm.mem_iff.mpr hx)
    obtain ⟨u, -, rfl⟩ := List.mem_map.mp hm
    exact ⟨_, (hrows _).mpr (Or.inl hm), rfl, rfl⟩

theorem exchanged_requested (hk : Uuid.parse id = some k) (hids : Canonical ids)
    (h : Exchanged pg now tenantID id ids v v') : Requested v' tenantID k ids := by
  have husers := (exchanged_frame hk h).1
  obtain ⟨ks, hks, hcount, hrows⟩ := exchanged_rows hk h
  have htexts := eq_texts_of_parseIDs
    (fun i hi => hids i (mem_dedupeNonEmpty.mp hi).1 (mem_dedupeNonEmpty.mp hi).2) hks
  obtain ⟨-, hmembers⟩ := exchanged_members hk h hks (by rw [htexts, List.length_map])
  refine ⟨nodup_membersOf v' k, fun i => ?_, fun i hi => ?_⟩
  · rw [hmembers, ← mem_dedupeNonEmpty, htexts, List.mem_map]
  · obtain ⟨m, hm, hgroup, rfl⟩ := mem_membersOf.mp hi
    have hjoined := ((hrows m).mp hm).resolve_right fun h => h.2 hgroup
    obtain ⟨u, hu, rfl⟩ := List.mem_map.mp hjoined
    obtain ⟨hu, hp⟩ := List.mem_filter.mp hu
    simp only [decide_eq_true_eq] at hp
    exact ⟨u, husers ▸ hu, hp.1, rfl⟩

/-! ### A missing user -/

/-- One of the ids is no user of the tenant. -/
def Db.Misses (db : Db) (tenantID : String) (ids : List String) : Prop :=
  ∃ i ∈ ids, i ≠ "" ∧ ¬ db.IsUserOf tenantID i

theorem not_exchanged (hk : Uuid.parse id = some k) (hids : Canonical ids)
    (hmiss : v.Misses tenantID ids) : ¬ ∃ v', Exchanged pg now tenantID id ids v v' := by
  rintro ⟨v', h⟩
  obtain ⟨i, hi, hne, hnot⟩ := hmiss
  have hrequested := exchanged_requested hk hids h
  have huser := hrequested.users i ((hrequested.exact i).mpr ⟨hi, hne⟩)
  rw [Db.IsUserOf, (exchanged_frame hk h).1] at huser
  exact hnot huser

/-- With its members cleared, a group that exists takes the users that the ids name. -/
theorem addMembers_clear {ks : List Uuid} (hk : Uuid.parse id = some k)
    (hclear : ∀ m ∈ v.members.rows, m.groupID ≠ k) (hgroup : (v.groups.find? k).isSome)
    (hks : parseIDs ids = .ok ks) : execAddMembers now id tenantID ids v =
      .ok ((newcomers v now k tenantID ks).length, (newcomers v now k tenantID ks).map .putMember) := by
  have hfree : ¬ ((newcomers v now k tenantID ks).any fun m => (v.members.find? m.key).isSome) = true := by
    intro hany
    obtain ⟨m, hm, hfound⟩ := List.any_eq_true.mp hany
    obtain ⟨x, hx⟩ := Option.isSome_iff_exists.mp hfound
    obtain ⟨u, -, rfl⟩ := List.mem_map.mp hm
    exact hclear x (Relational.Table.find?_mem hx) (congrArg Prod.fst (Relational.Table.find?_key hx))
  have hexists : ¬ (newcomers v now k tenantID ks ≠ [] ∧ (v.groups.find? k).isNone = true) := by
    rintro ⟨-, hnone⟩
    rw [Option.isNone_iff_eq_none] at hnone
    rw [hnone] at hgroup
    cases hgroup
  rw [execAddMembers, parseID, hk, hks]
  rw [newcomers] at hfree hexists
  dsimp only
  rw [if_neg hfree, if_neg hexists]
  rfl

/-- With its members cleared, a group that exists is refused new ones only for a malformed id. -/
theorem addMembers_error {e : DbError} (hk : Uuid.parse id = some k)
    (hclear : ∀ m ∈ v.members.rows, m.groupID ≠ k) (hgroup : (v.groups.find? k).isSome)
    (h : execAddMembers now id tenantID ids v = .error e) : e = invalidText := by
  cases hks : parseIDs ids with
  | error e' =>
    rw [execAddMembers, parseID, hk, hks] at h
    cases h
    exact parseIDs_error hks
  | ok ks =>
    rw [addMembers_clear hk hclear hgroup hks] at h
    cases h

theorem newcomers_congr {ks ks' : List Uuid} (husers : v'.users = v.users)
    (h : ∀ x, x ∈ ks' ↔ x ∈ ks) : newcomers v' now k tenantID ks' = newcomers v now k tenantID ks := by
  simp only [newcomers, husers, h]

/-- The members of a group that exists are exchanged for users of the tenant. -/
theorem exists_exchanged {ks : List Uuid} (hk : Uuid.parse id = some k)
    (hgroup : (v.groups.find? k).isSome) (hks : parseIDs (dedupeNonEmpty ids) = .ok ks)
    (hcount : (newcomers v now k tenantID ks).length = (dedupeNonEmpty ids).length) :
    ∃ v', Exchanged pg now tenantID id ids v v' := by
  have hclear : ∃ n ws, execClearMembers id v = .ok (n, ws) := by
    rw [execClearMembers, parseID, hk]
    exact ⟨_, _, rfl⟩
  obtain ⟨n, ws, hclear⟩ := hclear
  by_cases hd : (dedupeNonEmpty ids).isEmpty
  · exact ⟨_, n, ws, hclear, by rw [if_pos hd]⟩
  · have hframe := memberOf_frame pg (clearMembers_ok hk hclear) v
    have hnone : ∀ m ∈ ((engine pg).applyAll v ws).members.rows, m.groupID ≠ k :=
      fun m hm => ((mem_cleared hk hclear).mp hm).2
    have hadd : execAddMembers now id tenantID (dedupeNonEmpty ids) _ = _ :=
      addMembers_clear hk hnone (by rw [hframe.2.1]; exact hgroup) hks
    rw [newcomers_congr hframe.1 fun _ => Iff.rfl, hcount] at hadd
    refine ⟨(engine pg).applyAll ((engine pg).applyAll v ws)
      ((newcomers v now k tenantID ks).map .putMember), n, ws, hclear, ?_⟩
    rw [if_neg hd]
    exact ⟨_, hadd, rfl⟩

variable {supply : Nat → Supply Env DbError} {w : StoreWorld} {s : Store} {rec : AuditRecord}
  {g : Group}

theorem leads_replaceMembers_missing (hq : Quiet supply) (hw : (engine pg).Open now db v w)
    (hk : Uuid.parse id = some k) (hids : Canonical ids) (hgroup : (v.groups.find? k).isSome)
    (hmiss : v.Misses tenantID ids) :
    (engine pg).Leads supply (replaceMembers tenantID id ids) (fun _ _ => False)
      (fun e w' => e = .invalidMember ∧ w'.db = db) w := by
  have hnot : ¬ ∃ v', Exchanged pg now tenantID id ids v v' := not_exchanged hk hids hmiss
  have hd : (dedupeNonEmpty ids).isEmpty = false := by
    obtain ⟨i, hi, hne, -⟩ := hmiss
    rw [List.isEmpty_eq_false_iff]
    exact List.ne_nil_of_mem (mem_dedupeNonEmpty.mpr ⟨hi, hne⟩)
  refine leads_bind.mpr (leads_exec hw ?_ ?_)
  · intro env n ws w' hx hopen
    change execClearMembers id v = _ at hx
    simp only [hd, Bool.false_eq_true, if_false]
    have hcleared : ∀ m ∈ ((engine pg).applyAll v ws).members.rows, m.groupID ≠ k :=
      fun m hm => ((mem_cleared hk hx).mp hm).2
    have hgroups : ((engine pg).applyAll v ws).groups = v.groups :=
      (memberOf_frame pg (clearMembers_ok hk hx) v).2.1
    refine leads_bind.mpr (leads_tx hopen ?_ ?_)
    · intro env m ws' w'' hx' hopen'
      change execAddMembers now id tenantID (dedupeNonEmpty ids) ((engine pg).applyAll v ws) = _ at hx'
      by_cases hm : m = (dedupeNonEmpty ids).length
      · subst hm
        have hne : ¬ (dedupeNonEmpty ids).isEmpty = true := by simp [hd]
        exact (hnot ⟨_, n, ws, hx, (if_neg hne).mpr ⟨ws', hx', rfl⟩⟩).elim
      · simp only [ne_eq, hm, not_false_eq_true, if_true]
        exact ⟨rfl, hopen'.1⟩
    · intro e w'' hx' hdb
      obtain ⟨env, hx'⟩ := hx' hq
      obtain rfl := addMembers_error hk hcleared (hgroups ▸ hgroup) hx'
      have hmalformed : isInvalidArrayElement invalidText = true := by decide
      dsimp only
      rw [if_pos hmalformed]
      exact ⟨rfl, hdb⟩
  · intro e w' hx _
    obtain ⟨env, hx⟩ := hx hq
    change execClearMembers id v = _ at hx
    rw [execClearMembers, parseID, hk] at hx
    cases hx

theorem putGroup_frame (pg : Postgres) (db : Db) (r : GroupRow) :
    ((engine pg).applyAll db [.putGroup r]).users = db.users ∧
      ((engine pg).applyAll db [.putGroup r]).groups = db.groups.put r := ⟨rfl, rfl⟩

theorem Db.Misses.congr {ids : List String} (h : db.Misses tenantID ids) (husers : v.users = db.users) :
    v.Misses tenantID ids := by
  obtain ⟨i, hi, hne, hnot⟩ := h
  refine ⟨i, hi, hne, ?_⟩
  rw [Db.IsUserOf, husers]
  exact hnot

theorem putGroup_found (pg : Postgres) (db : Db) (r : GroupRow) :
    (((engine pg).applyAll db [.putGroup r]).groups.find? r.id).isSome := by
  rw [(putGroup_frame pg db r).2, Relational.Table.find?_put, if_pos rfl]
  rfl

/-- The members are checked last: a call that gets that far ends with `invalidMember`. -/
theorem leads_createGroup_missing (hq : Quiet supply) (hw : w.Idle db) (hids : Canonical g.members)
    (hmiss : db.Misses tenantID g.members) :
    (engine pg).Leads supply (s.createGroup tenantID g rec) (fun _ _ => False)
      (fun e _ => e = .invalidMember ∨
        ∃ now n e', execInsertGroup pg now (supply n).env tenantID g db = .error e') w := by
  refine leads_inTx hw ?_ ?_
  · intro now w' hopen
    refine leads_bind.mpr (leads_tx_supplied hopen ?_ ?_)
    · intro n created ws w'' hx hopen'
      change execInsertGroup pg now (supply n).env tenantID g db = _ at hx
      obtain ⟨r, hr, rfl, -⟩ := insertGroup_ok hx
      have hk : Uuid.parse created.id = some r.id := by rw [hr, scanGroup_id, Uuid.parse_text]
      have hmissing := leads_replaceMembers_missing hq hopen' hk hids (putGroup_found pg db r)
        (hmiss.congr (putGroup_frame pg db r).1)
      refine leads_bind.mpr (leads_attempt.mpr (hmissing.mono (fun _ _ h => h.elim) ?_))
      rintro _ w₁ ⟨rfl, hdb⟩
      dsimp only
      rw [if_pos rfl]
      exact leads_bind.mpr (leads_auditRefusal hdb fun _ _ _ _ _ => Or.inl rfl)
    · intro e w'' hx hdb
      obtain ⟨n, hx⟩ := hx hq
      dsimp only
      by_cases he : isUniqueViolationOn e uniqueGroupNameIndex
      · rw [if_pos he]
        exact leads_bind.mpr (leads_auditRefusal hdb fun _ _ _ _ _ => Or.inr ⟨now, n, e, hx⟩)
      · rw [if_neg he]
        exact fun _ _ => Or.inr ⟨now, n, e, hx⟩
  · intro e w' hnot
    exact (hnot hq).elim

theorem leads_updateGroup_missing (hq : Quiet supply) (hw : w.Idle db) (hids : Canonical g.members)
    (hmiss : db.Misses tenantID g.members) :
    (engine pg).Leads supply (s.updateGroup tenantID id g rec) (fun _ _ => False)
      (fun e _ => e = .invalidMember ∨
        ∃ now, ∀ after ws, execUpdateGroup pg now tenantID id g db db ≠ .ok (some after, ws)) w := by
  refine leads_inTx hw ?_ ?_
  · intro now w' hopen
    refine leads_bind.mpr (leads_attempt.mpr (leads_getGroupTx hopen ?_ ?_))
    · intro r w'' hfind hopen'
      obtain ⟨k, hk⟩ := groupAt_parses hfind
      refine leads_bind.mpr (leads_tx hopen' ?_ ?_)
      · intro env found ws w₁ hx hopen₁
        change execUpdateGroup pg now tenantID id g db db = _ at hx
        cases found with
        | none =>
          rcases updateGroup_none hx with hnone | hnone <;>
          · rw [hfind] at hnone
            cases hnone
        | some after =>
          obtain ⟨c, r', -, rfl, hid, -⟩ := updateGroup_ok hk hx
          have hmissing := leads_replaceMembers_missing hq hopen₁ hk hids
            (hid ▸ putGroup_found pg db r') (hmiss.congr (putGroup_frame pg db r').1)
          refine leads_bind.mpr (leads_attempt.mpr (hmissing.mono (fun _ _ h => h.elim) ?_))
          rintro _ w₂ ⟨rfl, hdb⟩
          dsimp only
          rw [if_pos rfl]
          exact leads_bind.mpr (leads_auditRefusal hdb fun _ _ _ _ _ => Or.inl rfl)
      · intro e w₁ hx hdb
        obtain ⟨env, hx⟩ := hx hq
        change execUpdateGroup pg now tenantID id g db db = _ at hx
        have hrefused : ∃ now, ∀ after ws,
            execUpdateGroup pg now tenantID id g db db ≠ .ok (some after, ws) := by
          refine ⟨now, fun after ws hok => ?_⟩
          rw [hx] at hok
          cases hok
        dsimp only [scanRow]
        by_cases he : isUniqueViolationOn e uniqueGroupNameIndex
        · rw [if_pos he]
          exact leads_bind.mpr (leads_auditRefusal hdb fun _ _ _ _ _ => Or.inr hrefused)
        · rw [if_neg he]
          exact fun _ _ => Or.inr hrefused
    · intro e w'' hnone hother hdb
      have hrefused : ∃ now, ∀ after ws,
          execUpdateGroup pg now tenantID id g db db ≠ .ok (some after, ws) :=
        ⟨now, fun _ _ hok => updateGroup_found hok (hnone hq)⟩
      have hnever : Quiet supply → ¬ False := fun _ h => h
      exact leads_refused hdb hnever hother fun _ _ _ _ => Or.inr hrefused
  · intro e w' hnot
    exact (hnot hq).elim

/-! ### The calls -/

/-- What a call answers, and the database after it. -/
def outcome (pg : Postgres) (supply : Nat → Supply Env DbError) (c : Call α) (db : Db) :
    Except StoreError α × Db :=
  (((engine pg).run supply c.run (World.start db)).1, ((engine pg).run supply c.run (World.start db)).2.db)

/-- Members given as ids: a call that succeeds leaves them, all of them users of the tenant; with one that is
no user the call changes nothing, and says so if nothing else is in its way. -/
structure Members (db : Db) (tenantID : String) (ids : List String) (group : α → Option Uuid)
    (clear : Prop) (x : Except StoreError α × Db) : Prop where
  stored : ∀ a, x.1 = .ok a → ∃ k, group a = some k ∧ Requested x.2 tenantID k ids
  missing : db.Misses tenantID ids → ∃ e, x.1 = .error e ∧ x.2.groups = db.groups ∧
    x.2.members = db.members ∧ (clear → e = .invalidMember)

theorem Requested.congr {ids : List String} (h : Requested v tenantID k ids) (hlogged : Logged v v') :
    Requested v' tenantID k ids := by
  obtain ⟨log, queue, rfl⟩ := hlogged
  exact ⟨h.distinct, h.exact, h.users⟩

theorem Fails.frame {accepts : Prop} {resource : Resource} {action : Action} {targetID : String}
    {e : StoreError} {db' : Db} (h : Fails supply accepts rec resource action targetID db e db') :
    db'.groups = db.groups ∧ db'.members = db.members := by
  rcases h.change with rfl | ⟨now, serial, target, detail, rfl⟩
  · exact ⟨rfl, rfl⟩
  · exact ⟨rfl, rfl⟩

theorem Requested.not_misses {ids : List String} (h : Requested v tenantID k ids)
    (husers : v.users = db.users) : ¬ db.Misses tenantID ids := by
  rintro ⟨i, hi, hne, hnot⟩
  have huser := h.users i ((h.exact i).mpr ⟨hi, hne⟩)
  rw [Db.IsUserOf, husers] at huser
  exact hnot huser

theorem members_outcome {c : Call α} {ids : List String} {group : α → Option Uuid} {clear : Prop}
    (hdone : (engine pg).Leads supply c (fun a w => w.db.users = db.users ∧
      ∃ k, group a = some k ∧ Requested w.db tenantID k ids)
      (fun _ w => w.db.groups = db.groups ∧ w.db.members = db.members) (World.start db))
    (hmissing : Quiet supply → db.Misses tenantID ids → (engine pg).Leads supply c (fun _ _ => False)
      (fun e _ => e = .invalidMember ∨ ¬ clear) (World.start db)) :
    Members db tenantID ids group (Quiet supply ∧ clear) (outcome pg supply c db) := by
  unfold Leads at hdone hmissing
  unfold outcome
  revert hdone hmissing
  rcases (engine pg).run supply c.run (World.start db) with ⟨e | a, w⟩
  · rintro ⟨hgroups, hmembers⟩ hmissing
    refine ⟨fun _ ha => (nomatch ha), fun hmiss => ⟨e, rfl, hgroups, hmembers, ?_⟩⟩
    rintro ⟨hq, hclear⟩
    exact (hmissing hq hmiss).resolve_right fun hnot => hnot hclear
  · rintro ⟨husers, k, hk, hrequested⟩ -
    refine ⟨fun a' ha => ?_, fun hmiss => (hrequested.not_misses husers hmiss).elim⟩
    cases ha
    exact ⟨k, hk, hrequested⟩

theorem createGroup_members (pg : Postgres) (supply : Nat → Supply Env DbError) (s : Store)
    (rec : AuditRecord) (db : Db) (tenantID : String) (hids : Canonical g.members) :
    Members db tenantID g.members (fun created : Group => Uuid.parse created.id)
      (Quiet supply ∧ ∀ now n, ∃ x, execInsertGroup pg now (supply n).env tenantID g db = .ok x)
      (outcome pg supply (s.createGroup tenantID g rec) db) := by
  have hw : (World.start db : StoreWorld).Idle db := ⟨rfl, rfl⟩
  refine members_outcome (leads_createGroup hw ?_ ?_) fun hq hmiss =>
    (leads_createGroup_missing hq hw hids hmiss).mono (fun _ _ h => h) ?_
  · rintro now env created ws v db' w' hx hex hlogged ⟨rfl, -⟩
    obtain ⟨r, hr, rfl, -⟩ := insertGroup_ok hx
    have hk : Uuid.parse created.id = some r.id := by rw [hr, scanGroup_id, Uuid.parse_text]
    have husers := (exchanged_frame hk hex).1.trans (putGroup_frame pg db r).1
    have hrequested := (exchanged_requested hk hids hex).congr hlogged
    obtain ⟨log, queue, hlogged⟩ := hlogged
    refine ⟨?_, r.id, hk, hrequested⟩
    rw [hlogged]
    exact husers
  · rintro e db' w' hfails ⟨rfl, -⟩
    exact hfails.frame
  · rintro e w' (he | ⟨now, n, e', hx⟩)
    · exact Or.inl he
    · refine Or.inr fun hclear => ?_
      obtain ⟨x, hok⟩ := hclear now n
      cases hok.symm.trans hx

theorem updateGroup_members (pg : Postgres) (supply : Nat → Supply Env DbError) (s : Store)
    (rec : AuditRecord) (db : Db) (tenantID id : String) (hids : Canonical g.members) :
    Members db tenantID g.members (fun _ : GroupChange => Uuid.parse id)
      (Quiet supply ∧ ∀ now, ∃ after ws,
        execUpdateGroup pg now tenantID id g db db = .ok (some after, ws))
      (outcome pg supply (s.updateGroup tenantID id g rec) db) := by
  have hw : (World.start db : StoreWorld).Idle db := ⟨rfl, rfl⟩
  refine members_outcome (leads_updateGroup hw ?_ ?_) fun hq hmiss =>
    (leads_updateGroup_missing hq hw hids hmiss).mono (fun _ _ h => h) ?_
  · rintro now before after ws v db' w' hx hex hlogged ⟨rfl, -⟩
    obtain ⟨c, hc⟩ := Option.ne_none_iff_exists'.mp (updateGroup_found hx)
    obtain ⟨k, hk⟩ := groupAt_parses hc
    obtain ⟨c, r, -, rfl, -⟩ := updateGroup_ok hk hx
    have husers := (exchanged_frame hk hex).1.trans (putGroup_frame pg db r).1
    have hrequested := (exchanged_requested hk hids hex).congr hlogged
    obtain ⟨log, queue, hlogged⟩ := hlogged
    refine ⟨?_, k, hk, hrequested⟩
    rw [hlogged]
    exact husers
  · rintro e db' w' hfails ⟨rfl, -⟩
    exact hfails.frame
  · rintro e w' (he | ⟨now, hx⟩)
    · exact Or.inl he
    · refine Or.inr fun hclear => ?_
      obtain ⟨after, ws, hok⟩ := hclear now
      exact hx after ws hok

end Scimage.Store
