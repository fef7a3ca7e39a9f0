import Scimage.Scim.Denials
import Scimage.Scim.Directory
import Scimage.Scim.Listing
import Scimage.Store.Naming

/-! The lookup by name that comes before a creation. -/
namespace Scimage.Scim

open Txn Engine
open Store (engine Db Env DbError StoreWorld Postgres UserRow GroupRow scanUser trimSpace)
open Json (Value Map quote)

/-! ### The filter -/

/-- `attr eq "value"` -/
def eqExpr (attr value : String) : String := attr ++ " eq \"" ++ value ++ "\""

theorem eqExpr_chars (attr value : String) : (eqExpr attr value).toList =
    attr.toList ++ ' ' :: 'e' :: 'q' :: ' ' :: '"' :: (value.toList ++ ['"']) := by
  have hmiddle : " eq \"".toList = [' ', 'e', 'q', ' ', '"'] := by rfl
  have hend : "\"".toList = ['"'] := by rfl
  rw [eqExpr, String.toList_append, String.toList_append, String.toList_append, hmiddle, hend]
  simp only [List.append_assoc, List.cons_append, List.nil_append]

theorem isBlank_of_word {c : Char} (h : isWordChar c = true) : isBlank c = false := by
  cases hb : isBlank c with
  | false => rfl
  | true =>
    simp only [isBlank, Bool.or_eq_true, beq_iff_eq] at hb
    rcases hb with (((rfl | rfl) | rfl) | rfl) | hb
    · cases h
    · cases h
    · cases h
    · cases h
    · have hc : c = Char.ofNat 12 := by
        rw [← hb, Char.ofNat_toNat]
      rw [hc] at h
      cases h

theorem eqFilter_expr {attr value : String} {a : Char} {as : List Char} (ha : attr.toList = a :: as)
    (hword : ∀ c ∈ attr.toList, isWordChar c = true) (hq : '"' ∉ value.toList) :
    eqFilter (eqExpr attr value) = some (attr, value) := by
  have hspace : isBlank ' ' = true := by decide
  have he : isBlank 'e' = false := by decide
  have hmark : isBlank '"' = false := by decide
  have hsep : isWordChar ' ' = false := by decide
  have hstart : (attr.toList ++ ' ' :: 'e' :: 'q' :: ' ' :: '"' :: (value.toList ++ ['"'])).dropWhile
      isBlank = attr.toList ++ ' ' :: 'e' :: 'q' :: ' ' :: '"' :: (value.toList ++ ['"']) := by
    rw [ha, List.cons_append, List.dropWhile_cons_of_neg]
    simp [isBlank_of_word (hword a (by simp [ha]))]
  have htake : (attr.toList ++ ' ' :: 'e' :: 'q' :: ' ' :: '"' :: (value.toList ++ ['"'])).takeWhile
      isWordChar = attr.toList := by
    rw [List.takeWhile_append_of_pos hword, List.takeWhile_cons_of_neg (by simp [hsep]),
      List.append_nil]
  have hdrop : (attr.toList ++ ' ' :: 'e' :: 'q' :: ' ' :: '"' :: (value.toList ++ ['"'])).dropWhile
      isWordChar = ' ' :: 'e' :: 'q' :: ' ' :: '"' :: (value.toList ++ ['"']) := by
    rw [List.dropWhile_append_of_pos hword, List.dropWhile_cons_of_neg (by simp [hsep])]
  have hne : attr.toList ≠ [] := by simp [ha]
  have hvalue : quoted ('"' :: (value.toList ++ ['"'])) = some value.toList := by
    simp only [quoted, dropWhile_ne_append hq, takeWhile_ne_append hq, List.all_nil, if_true]
  rw [eqFilter, eqExpr_chars]
  simp only [hstart, htake, hdrop, if_neg hne]
  simp [blanks, hspace, he, hmark, hvalue]

/-- `strings.ToLower` of a text whose lower case is ASCII. -/
theorem lower_ascii (U : Unicode) {s : String}
    (h : ∀ c ∈ s.toList, (Store.asciiLower c).toNat < 128) :
    U.lower s = String.ofList (s.toList.map Store.asciiLower) := by
  rw [Unicode.lower]
  congr 1
  exact List.map_congr_left fun c hc => U.ascii c (Or.inr (h c hc))

theorem parseEq_expr {F : Type} (U : Unicode) (zero : F) (apply : String → Option (String → F))
    (choices : String) {attr value : String} {a : Char} {as : List Char} {set : String → F}
    (ha : attr.toList = a :: as) (hword : ∀ c ∈ attr.toList, isWordChar c = true)
    (hspace : Store.isSpace a = false) (hset : apply (U.lower attr) = some set)
    (hq : '"' ∉ value.toList) (hv : value ≠ "") :
    parseEq U zero apply choices (eqExpr attr value) = .ok (set value) := by
  have htrim : trimSpace (eqExpr attr value) = eqExpr attr value := by
    have hchars : (eqExpr attr value).toList =
        a :: (as ++ ' ' :: 'e' :: 'q' :: ' ' :: '"' :: value.toList) ++ ['"'] := by
      rw [eqExpr_chars, ha]
      simp only [List.cons_append, List.append_assoc]
    exact Store.trimSpace_eq_self hchars hspace (by decide)
  have hne : eqExpr attr value ≠ "" := by
    intro he
    have hchars := eqExpr_chars attr value
    rw [he, ha] at hchars
    cases hchars
  rw [parseEq, htrim, if_neg hne, eqFilter_expr ha hword hq]
  simp only [hset, if_neg hv]

theorem parseFilter_userName (U : Unicode) {v : String} (hq : '"' ∉ v.toList) (hv : v ≠ "") :
    parseFilter U (eqExpr "userName" v) = .ok ⟨v, ""⟩ := by
  have hchars : "userName".toList = 'u' :: ['s', 'e', 'r', 'N', 'a', 'm', 'e'] := by rfl
  have hascii : "userName".toList.all (fun c => (Store.asciiLower c).toNat < 128) = true := by rfl
  have hword : "userName".toList.all isWordChar = true := by rfl
  have hset : filterableAttributes (U.lower "userName") = some fun v => ⟨v, ""⟩ := by
    rw [lower_ascii U fun c hc => of_decide_eq_true (List.all_eq_true.mp hascii c hc), hchars]
    rfl
  have hspace : Store.isSpace 'u' = false := by decide
  have hparse := parseEq_expr U ⟨"", ""⟩ filterableAttributes "userName or externalId" hchars
    (List.all_eq_true.mp hword) hspace
    hset hq hv
  exact hparse

theorem parseGroupFilter_displayName (U : Unicode) {v : String} (hq : '"' ∉ v.toList) (hv : v ≠ "") :
    parseGroupFilter U (eqExpr "displayName" v) = .ok ⟨v, ""⟩ := by
  have hchars : "displayName".toList = 'd' :: ['i', 's', 'p', 'l', 'a', 'y', 'N', 'a', 'm', 'e'] := by rfl
  have hascii : "displayName".toList.all (fun c => (Store.asciiLower c).toNat < 128) = true := by rfl
  have hword : "displayName".toList.all isWordChar = true := by rfl
  have hset : groupFilterableAttributes (U.lower "displayName") = some fun v => ⟨v, ""⟩ := by
    rw [lower_ascii U fun c hc => of_decide_eq_true (List.all_eq_true.mp hascii c hc), hchars]
    rfl
  have hspace : Store.isSpace 'd' = false := by decide
  have hparse := parseEq_expr U ⟨"", ""⟩ groupFilterableAttributes "displayName or externalId" hchars
    (List.all_eq_true.mp hword) hspace
    hset hq hv
  exact hparse

/-! ### Lookups and creations -/

/-- The lookup by name of an identity provider. -/
def lookup (attr v : String) : ListQuery := ⟨eqExpr attr v, "", ""⟩

def Shows (x : Except Response Page) : Prop := ∃ p, x = .ok p ∧ p.resources ≠ []

/-- 409 with `uniqueness`. -/
def NameTaken (resp : Response) : Prop :=
  resp.status = 409 ∧ ∃ detail, resp.body = .error "uniqueness" detail

variable {pg : Postgres} {U : Unicode} {T : TimeText} {supply : Nat → Supply Env DbError}
  {db : Db} {h : Handler} {r : Request} {v tenantID : String}

theorem shows_pageOf {ρ : Type} {rows : List ρ} {resource : ρ → Value} {n : Nat} (hn : 0 < n) :
    Shows (.ok (pageOf rows resource 1 n)) ↔ rows ≠ [] := by
  have hpos : ∀ x, Shows (.ok x) ↔ x.resources ≠ [] := by
    intro x
    constructor
    · rintro ⟨p, hp, hne⟩
      cases hp
      exact hne
    · exact fun hne => ⟨x, rfl, hne⟩
  rw [hpos, pageOf]
  cases rows with
  | nil => simp
  | cons x xs =>
    cases n with
    | zero => omega
    | succ n => simp

theorem shows_user_iff (hq : Quiet supply) (hmark : '"' ∉ v.toList) (hv : v ≠ "") :
    Shows (answer pg supply (h.list r (lookup "userName" v)) db) ↔
      db.userNamed pg r.tenantID v := by
  have hanswer := answer_users pg db (h := h) (r := r) (q := lookup "userName" v)
    (parseFilter_userName h.unicode hmark hv) hq (Nat.le_refl 1) rfl (n := 200) rfl
  rw [hanswer, shows_pageOf (by decide), ne_eq, ← List.length_eq_zero_iff,
    (Store.usersInOrder_sorted pg db r.tenantID ⟨v, ""⟩).1.length_eq, List.length_eq_zero_iff]
  simp [Db.usersWhere, Db.userNamed, Store.UserFilter.clause, hv, List.filter_eq_nil_iff]

theorem shows_group_iff (hq : Quiet supply) (hmark : '"' ∉ v.toList) (hv : v ≠ "") :
    Shows (answer pg supply (h.listGroups r (lookup "displayName" v)) db) ↔
      db.groupNamed pg r.tenantID v := by
  have hanswer := answer_groups pg db (h := h) (r := r) (q := lookup "displayName" v)
    (parseGroupFilter_displayName h.unicode hmark hv) hq (Nat.le_refl 1) rfl (n := 200) rfl
  rw [hanswer, shows_pageOf (by decide), ne_eq, ← List.length_eq_zero_iff,
    (Store.groupsInOrder_sorted pg db r.tenantID ⟨v, ""⟩).1.length_eq, List.length_eq_zero_iff]
  simp [Db.groupsWhere, Db.groupNamed, Store.GroupFilter.clause, hv, List.filter_eq_nil_iff]

theorem nameTaken_created {location : String} {v : Value} : ¬ NameTaken ⟨201, location, .resource v⟩ :=
  fun h => nomatch h.1

theorem created_user_iff {u : User} {keys : Map} (hq : Quiet supply)
    (hfresh : ∀ n, db.users.find? (supply n).env.uuid = none)
    (hdecode : h.decodedUser r = .ok (u, keys)) (hext : (toStoreUser u).externalID = none)
    (hraw : (h.userRow r (h.registryOf db r.tenantID) u keys).extendedAttributes = "") :
    NameTaken (serve pg supply (h.mutate r .user .post) db).1 ↔
      db.userNamed pg r.tenantID (trimSpace u.userName) := by
  refine leads_serve (Q := fun resp _ => NameTaken resp ↔ _) ?_
  have hw : (World.start db : StoreWorld).Idle db := ⟨rfl, rfl⟩
  change (engine pg).Leads supply (h.create r) _ _ _
  refine leads_ofExcept_ok hdecode ?_
  refine leads_bind.mpr (leads_registered hw ?_ fun _ hnot => (hnot hq).elim)
  intro w₁ hidle
  refine leads_bind.mpr (leads_refusedWith.mpr ?_)
  have hrow : (h.userRow r (h.registryOf db r.tenantID) u keys).externalID = none := by
    rw [Handler.userRow, storeUserOf]
    generalize toStoreUser u = su at hext
    exact hext
  refine (Store.leads_createUser_named hq hfresh hraw hrow hidle).mono ?_ ?_
  · intro created _ hfree
    exact iff_of_false nameTaken_created hfree
  · rintro e _ ⟨rfl, hnamed⟩
    exact iff_of_true ⟨rfl, _, rfl⟩ hnamed

theorem created_group_iff {g : Group} (hq : Quiet supply)
    (hfresh : ∀ n, db.groups.find? (supply n).env.uuid = none)
    (hdecode : h.decodedGroup r = .ok g) (hext : (toStoreGroup g).externalID = none)
    (hmembers : (toStoreGroup g).members = []) :
    NameTaken (serve pg supply (h.mutate r .group .post) db).1 ↔
      db.groupNamed pg r.tenantID (trimSpace g.displayName) := by
  refine leads_serve (Q := fun resp _ => NameTaken resp ↔ _) ?_
  have hw : (World.start db : StoreWorld).Idle db := ⟨rfl, rfl⟩
  change (engine pg).Leads supply (h.createGroup r) _ _ _
  refine leads_ofExcept_ok hdecode ?_
  refine leads_bind.mpr (leads_refusedWith.mpr ?_)
  refine (Store.leads_createGroup_named hq hfresh hext hmembers hw).mono ?_ ?_
  · intro created _ hfree
    exact iff_of_false nameTaken_created hfree
  · rintro e _ ⟨rfl, hnamed⟩
    exact iff_of_true ⟨rfl, _, rfl⟩ hnamed

/-! ### The two answers -/

/-- The stored names carry no white space around them. -/
structure NamesTrimmed (db : Db) : Prop where
  users : ∀ row ∈ db.users.rows, trimSpace row.userName = row.userName
  groups : ∀ row ∈ db.groups.rows, trimSpace row.displayName = row.displayName

theorem Validated.trimmed {row : UserRow} (h : Validated (scanUser row)) :
    trimSpace row.userName = row.userName := by
  obtain ⟨u, -, hcols⟩ := h
  have hname : row.userName = trimSpace u.userName := Option.some.inj (Stored.text.inj (hcols .userName))
  rw [hname]
  exact Store.trimSpace_trimSpace _

theorem groups_trimmed (hgroups : ∀ row ∈ db.groups.rows, trimSpace row.displayName = row.displayName)
    {db' : Db} (h : Effect pg U db db') :
    ∀ row ∈ db'.groups.rows, trimSpace row.displayName = row.displayName := by
  cases h with
  | nothing h => rwa [h.2.1]
  | user row hdb => rwa [hdb.2.1]
  | group row id ids now v hid hfree hrow hex hdb =>
    rw [hdb.2.1, (Store.exchanged_frame hid hex).2.1]
    intro c hc
    rcases Relational.Table.mem_put.mp hc with rfl | ⟨hc, -⟩
    · obtain ⟨g, -, hname, -⟩ := hrow
      rw [hname]
      exact Store.trimSpace_trimSpace _
    · exact hgroups c hc
  | dropGroup k hdb =>
    rw [hdb.2.1]
    exact fun c hc => hgroups c (List.mem_of_mem_filter hc)
  | register a ha hdb => rwa [hdb.2.1]
  | unregister k hdb => rwa [hdb.2.1]

theorem names_trimmed (h : Reachable pg U T db) : NamesTrimmed db := by
  refine ⟨fun row hr => ((reachable_kept h).users row hr).validated.trimmed, ?_⟩
  induction h with
  | empty =>
    intro _ hr
    cases hr
  | step _ hmove ih => exact groups_trimmed ih (moves_effect hmove)

/-- `lower` moves no white space to or from the ends of a text. -/
def KeepsEnds (pg : Postgres) : Prop :=
  ∀ a b, pg.lower a = pg.lower b → trimSpace a = a → trimSpace b = b

/-- A text and what is left of it without the white space around it name alike exactly when they are
the same text, or when what is left names nothing. -/
theorem trimmed_agrees_iff {P : String → Prop} (h : ∀ v, P v → trimSpace v = v) (v : String) :
    (P v ↔ P (trimSpace v)) ↔ trimSpace v = v ∨ ¬ P (trimSpace v) := by
  by_cases hv : trimSpace v = v
  · rw [hv]
    simp
  · have hnot : ¬ P v := fun hp => hv (h v hp)
    simp [hv, hnot]

theorem userNamed_trimmed (hlower : KeepsEnds pg) (h : NamesTrimmed db) (v : String)
    (hnamed : db.userNamed pg tenantID v) : trimSpace v = v := by
  obtain ⟨row, hr, -, hname⟩ := hnamed
  exact hlower _ _ hname (h.users row hr)

theorem groupNamed_trimmed (hlower : KeepsEnds pg) (h : NamesTrimmed db) (v : String)
    (hnamed : db.groupNamed pg tenantID v) : trimSpace v = v := by
  obtain ⟨row, hr, -, hname⟩ := hnamed
  exact hlower _ _ hname (h.groups row hr)

theorem userName_ne {u : User} (h : validate u = "") : u.userName ≠ "" := by
  intro hu
  have hvalid := ((validate_iff u).mp h).2 .userName
  rw [cell, hu] at hvalid
  exact hvalid.1 trimSpace_empty

theorem displayName_ne {g : Group} (h : validateGroup g = "") : g.displayName ≠ "" := by
  intro hg
  have hschema : "schemas must contain " ++ groupSchema ≠ "" := by decide
  have hrequired : "displayName is required" ≠ "" := by decide
  rw [validateGroup, hg, trimSpace_empty] at h
  by_cases hs : groupSchema ∉ g.schemas.items
  · rw [if_pos hs] at h
    exact hschema h
  · rw [if_neg hs, if_pos rfl] at h
    exact hrequired h

variable {q : Request} {reads creates : Nat → Supply Env DbError}

theorem lookup_agrees_iff (hreach : Reachable pg U T db) (hlower : KeepsEnds pg)
    (hreads : Quiet reads) (hcreates : Quiet creates)
    (hfresh : ∀ n, db.users.find? (creates n).env.uuid = none ∧
      db.groups.find? (creates n).env.uuid = none)
    (htenant : q.tenantID = r.tenantID) (hmark : '"' ∉ v.toList) :
    (∀ u keys, h.decodedUser r = .ok (u, keys) → u.userName = v →
      (toStoreUser u).externalID = none →
      (h.userRow r (h.registryOf db r.tenantID) u keys).extendedAttributes = "" →
      ((Shows (answer pg reads (h.list q (lookup "userName" v)) db) ↔
          NameTaken (serve pg creates (h.mutate r .user .post) db).1) ↔
        trimSpace v = v ∨ ¬ db.userNamed pg r.tenantID (trimSpace v))) ∧
    ∀ g, h.decodedGroup r = .ok g → g.displayName = v → (toStoreGroup g).externalID = none →
      (toStoreGroup g).members = [] →
      ((Shows (answer pg reads (h.listGroups q (lookup "displayName" v)) db) ↔
          NameTaken (serve pg creates (h.mutate r .group .post) db).1) ↔
        trimSpace v = v ∨ ¬ db.groupNamed pg r.tenantID (trimSpace v)) := by
  have htrimmed := names_trimmed hreach
  constructor
  · rintro u keys hdecode rfl hext hraw
    have hne := userName_ne (decodedUser_ok hdecode).1
    rw [shows_user_iff hreads hmark hne, htenant,
      created_user_iff hcreates (fun n => (hfresh n).1) hdecode hext hraw]
    exact trimmed_agrees_iff (userNamed_trimmed hlower htrimmed) _
  · rintro g hdecode rfl hext hmembers
    have hne := displayName_ne (decodedGroup_ok hdecode).1
    rw [shows_group_iff hreads hmark hne, htenant,
      created_group_iff hcreates (fun n => (hfresh n).2) hdecode hext hmembers]
    exact trimmed_agrees_iff (groupNamed_trimmed hlower htrimmed) _

/-- The tenant with one user, ann. -/
def withAnn : Db := (serve Store.plainText Store.annSupply (plainHandler.mutate missingUser .user .post) .empty).2

def paulUuid : Store.Uuid := ⟨List.replicate 8 ⟨2, by decide⟩, rfl⟩

def paulSupply (_ : Nat) : Supply Env DbError := ⟨⟨paulUuid, 2⟩, 6, 6, none⟩

def userNamedRequest (name : String) : Request :=
  requestFor "" (.obj [(quote "schemas", .arr [string userSchema]), (quote "userName", string name)])

theorem withAnn_reachable : Reachable Store.plainText .plain noTimes withAnn :=
  .step .empty (.request ⟨false⟩ false missingUser .user .post Store.annSupply .empty)

theorem lookup_agrees_ann :
    Shows (answer Store.plainText paulSupply
        (plainHandler.list missingUser (lookup "userName" "ann")) withAnn) ↔
      NameTaken (serve Store.plainText paulSupply
        (plainHandler.mutate (userNamedRequest "ann") .user .post) withAnn).1 := by
  have hquiet : Quiet paulSupply := fun _ => rfl
  have hfresh : withAnn.users.find? (paulSupply 0).env.uuid = none := by rfl
  have hagrees := lookup_agrees_iff (h := plainHandler) (r := userNamedRequest "ann") (v := "ann")
    (q := missingUser) withAnn_reachable (fun a b hab ha => by rw [← show a = b from hab]; exact ha)
    hquiet hquiet (fun _ => ⟨hfresh, rfl⟩) rfl (by decide)
  exact (hagrees.1 _ _ (by rfl) (by rfl) (by rfl) (by rfl)).mpr (Or.inl (by rfl))

/-- A name with a blank before it is not found and yet taken. -/
theorem blank_name_taken : Reachable Store.plainText .plain noTimes withAnn ∧
    NameTaken (serve Store.plainText paulSupply
      (plainHandler.mutate (userNamedRequest " ann") .user .post) withAnn).1 ∧
    ¬ Shows (answer Store.plainText paulSupply
      (plainHandler.list missingUser (lookup "userName" " ann")) withAnn) := by
  refine ⟨withAnn_reachable, ⟨by rfl, _, rfl⟩, ?_⟩
  rw [shows_user_iff (fun _ => rfl) (by decide) (by decide)]
  rintro ⟨row, hr, -, hname⟩
  have hrows : withAnn.users.rows.map UserRow.userName = ["ann"] := by rfl
  have hann := List.mem_map_of_mem (f := UserRow.userName) hr
  rw [hrows, List.mem_singleton] at hann
  rw [hann] at hname
  exact absurd hname (by decide)

end Scimage.Scim
