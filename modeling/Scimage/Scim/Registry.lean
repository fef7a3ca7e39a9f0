import Scimage.Scim.Denials
import Scimage.Scim.Directory
import Scimage.Scim.Frame
import Scimage.Store.Consistency

/-! The registry over runs: which names it may hold, and which of them the core knows itself. -/
namespace Scimage.Scim

open Txn
open Store (Db Env DbError Postgres Resource AttributeRow trimSpace trimSpace_trimSpace reservedAttribute
  reservedAttributes)
open Relational (Table)
open Json (Value)

/-! ### Runs whose registrations meet a condition -/

/-- As `Reachable`; `ok` is asked of the directory, the tenant and the trimmed name. -/
inductive ReachableIf (pg : Postgres) (U : Unicode) (T : TimeText) (ok : Db → String → String → Prop) :
    Db → Prop where
  | empty : ReachableIf pg U T ok .empty
  | request {db : Db} (h : ReachableIf pg U T ok db) (s : Store) (extended : Bool) (r : Request)
      (resource : Resource) (m : Method) (supply : Nat → Supply Env DbError) :
      ReachableIf pg U T ok (serve pg supply (Handler.mutate ⟨U, T, s, extended⟩ r resource m) db).2
  | register {db : Db} (h : ReachableIf pg U T ok db) (tenantID name typ actor : String)
      (hok : ok db tenantID (trimSpace name)) (supply : Nat → Supply Env DbError) :
      ReachableIf pg U T ok (operate pg supply (Store.registerAttribute tenantID name typ actor) db)
  | unregister {db : Db} (h : ReachableIf pg U T ok db) (tenantID name actor : String)
      (supply : Nat → Supply Env DbError) :
      ReachableIf pg U T ok (operate pg supply (Store.unregisterAttribute tenantID name actor) db)
  | elsewhere {db db' : Db} (h : ReachableIf pg U T ok db) (hsame : SameDirectory db db') :
      ReachableIf pg U T ok db'

variable {pg : Postgres} {U : Unicode} {T : TimeText} {ok : Db → String → String → Prop} {db db' : Db}

theorem ReachableIf.reachable (h : ReachableIf pg U T ok db) : Reachable pg U T db := by
  induction h with
  | empty => exact .empty
  | request _ s extended r resource m supply ih => exact ih.step (.request s extended r resource m supply _)
  | register _ tenantID name typ actor _ supply ih => exact ih.step (.register tenantID name typ actor supply _)
  | unregister _ tenantID name actor supply ih => exact ih.step (.unregister tenantID name actor supply _)
  | elsewhere _ hsame ih => exact ih.step (.elsewhere hsame)

theorem Reachable.reachableIf (h : Reachable pg U T db) : ReachableIf pg U T (fun _ _ _ => True) db := by
  induction h with
  | empty => exact .empty
  | step _ hmove ih =>
    cases hmove with
    | request s extended r resource m supply => exact ih.request s extended r resource m supply
    | register tenantID name typ actor supply => exact ih.register tenantID name typ actor trivial supply
    | unregister tenantID name actor supply => exact ih.unregister tenantID name actor supply
    | elsewhere hsame => exact ih.elsewhere hsame

/-- A name that comes in is trimmed and not reserved. -/
def Registered (db : Db) (tenantID name : String) (db' : Db) : Prop :=
  SameDirectory db db' ∨ ∃ a : AttributeRow, a.tenantID = tenantID ∧ a.name = trimSpace name ∧
    reservedAttribute a.name = false ∧ SameDirectory { db with attributes := db.attributes.put a } db'

def Unregistered (db db' : Db) : Prop :=
  SameDirectory db db' ∨ ∃ k, SameDirectory { db with attributes := db.attributes.remove k } db'

theorem operate_register (pg : Postgres) (supply : Nat → Supply Env DbError)
    (tenantID name typ actor : String) (db : Db) : Registered db tenantID name
      (operate pg supply (Store.registerAttribute tenantID name typ actor) db) := by
  have hw : (World.start db : Store.StoreWorld).Idle db := ⟨rfl, rfl⟩
  refine leads_operate (P := Registered db tenantID name) (leads_register hw ?_ ?_)
  · exact fun _ h => Or.inl h
  · exact fun a _ htenant hname hfree h => Or.inr ⟨a, htenant, hname, hfree, h⟩

theorem operate_unregister (pg : Postgres) (supply : Nat → Supply Env DbError)
    (tenantID name actor : String) (db : Db) : Unregistered db
      (operate pg supply (Store.unregisterAttribute tenantID name actor) db) := by
  have hw : (World.start db : Store.StoreWorld).Idle db := ⟨rfl, rfl⟩
  refine leads_operate (P := Unregistered db) (leads_unregister hw ?_ ?_)
  · exact fun _ h => Or.inl h
  · exact fun k _ h => Or.inr ⟨k, h⟩

/-- What a registration ensures of the name holds of every name in the registry. -/
theorem registry_keeps {P : AttributeRow → Prop}
    (hP : ∀ db (a : AttributeRow), ok db a.tenantID a.name → reservedAttribute a.name = false → P a)
    (h : ReachableIf pg U T ok db) : ∀ a ∈ db.attributes.rows, P a := by
  induction h with
  | empty => exact fun _ ha => (List.not_mem_nil ha).elim
  | request _ s extended r resource m supply ih =>
    rw [request_attributes]
    exact ih
  | register _ tenantID name typ actor hok supply ih =>
    rcases operate_register pg supply tenantID name typ actor _ with hsame | ⟨a, rfl, hname, hfree, hsame⟩
    · rw [hsame.2.2.2]
      exact ih
    · intro b hb
      rw [hsame.2.2.2] at hb
      rcases Table.mem_put.mp hb with rfl | ⟨hb, -⟩
      · exact hP _ b (hname ▸ hok) hfree
      · exact ih b hb
  | unregister _ tenantID name actor supply ih =>
    rcases operate_unregister pg supply tenantID name actor _ with hsame | ⟨k, hsame⟩
    · rw [hsame.2.2.2]
      exact ih
    · intro b hb
      rw [hsame.2.2.2] at hb
      exact ih b (List.mem_of_mem_filter hb)
  | elsewhere _ hsame ih =>
    rw [hsame.2.2.2]
    exact ih

/-! ### Looking a name up -/

theorem mem_registeredAttributes {attrs : List AttributeRow} {m : Registry} {e : String × String}
    (h : e ∈ (attrs.foldl (fun m a => m.put (U.lower a.name, a.name)) m).rows) :
    e ∈ m.rows ∨ ∃ a ∈ attrs, e = (U.lower a.name, a.name) := by
  induction attrs generalizing m with
  | nil => exact Or.inl h
  | cons a attrs ih =>
    rcases ih h with h | ⟨b, hb, rfl⟩
    · rcases Table.mem_put.mp h with rfl | ⟨h, -⟩
      · exact Or.inr ⟨a, List.mem_cons_self, rfl⟩
      · exact Or.inl h
    · exact Or.inr ⟨b, List.mem_cons_of_mem a hb, rfl⟩

/-- What is found under a name is registered, and differs from it in case at most. -/
theorem canonical_some {attrs : List AttributeRow} {name canon : String}
    (h : (registeredAttributes U attrs).canonical U name = some canon) :
    ∃ a ∈ attrs, a.name = canon ∧ U.lower canon = U.lower name := by
  obtain ⟨e, he, rfl⟩ := Option.map_eq_some_iff.mp h
  rcases mem_registeredAttributes (Table.find?_mem he) with hnil | ⟨a, ha, rfl⟩
  · exact (List.not_mem_nil hnil).elim
  · have hkey : (U.lower a.name, a.name).1 = U.lower name := Table.find?_key he
    exact ⟨a, ha, rfl, hkey⟩

theorem mem_attributesOf {tenantID : String} {a : AttributeRow} (h : a ∈ db.attributesOf tenantID) :
    a ∈ db.attributes.rows ∧ a.tenantID = tenantID := by
  have hmem := List.mem_filter.mp ((List.perm_insertionSort _ _).mem_iff.mp h)
  exact ⟨hmem.1, of_decide_eq_true hmem.2⟩

/-! ### Names and core paths -/

/-- `setPath` or `clearPath` has an answer for the path other than `errUnsupportedPath`. -/
def Handles (U : Unicode) (path : String) : Prop :=
  ∃ u raw, (∀ e, setPath U u path raw = .error e → e.isUnsupportedPath = false) ∨
    ∀ e, clearPath U u path = .error e → e.isUnsupportedPath = false

/-- The keys of a path that no name in the registry is kept from: under the empty one a `remove` says
that it wants a path. -/
def unguardedKeys : List String := ["", "name.givenname", "name.familyname"]

def guardedKeys : List String := ["username", "externalid", "active", "name"]

theorem resolveSet_unsupported {key path : String} {raw : Option Value} (hkey : key ∉ guardedKeys ++ unguardedKeys)
    (hemail : ¬ isEmailPath key = true) : resolveSet U key path raw = .error (.unsupportedPath path) := by
  simp only [guardedKeys, unguardedKeys, List.mem_append, List.mem_cons, List.not_mem_nil, not_or, or_false] at hkey
  obtain ⟨⟨huser, hext, hactive, hname⟩, -, hgiven, hfamily⟩ := hkey
  rw [resolveSet, if_neg huser, if_neg hext, if_neg hactive, if_neg hgiven, if_neg hfamily,
    if_neg hname, if_neg hemail]

theorem resolveClear_unsupported {key path : String} (hkey : key ∉ guardedKeys ++ unguardedKeys)
    (hemail : ¬ isEmailPath key = true) : resolveClear key path = .error (.unsupportedPath path) := by
  simp only [guardedKeys, unguardedKeys, List.mem_append, List.mem_cons, List.not_mem_nil, not_or, or_false] at hkey
  obtain ⟨⟨-, hext, hactive, hname⟩, hempty, hgiven, hfamily⟩ := hkey
  rw [resolveClear, if_neg hempty, if_neg hext, if_neg hgiven, if_neg hfamily, if_neg hname,
    if_neg hactive, if_neg hemail]

/-- `username` cannot be removed, and can be set. -/
theorem resolveSet_username (U : Unicode) (path s : String) :
    resolveSet U "username" path (some (string s)) = .ok (.userName s) := by
  rw [resolveSet, if_pos rfl, assignString, decode, Option.bind_some, string, readString,
    Json.string_quote]
  rfl

theorem resolveClear_supported {key path : String} {e : PatchError}
    (hkey : key ∈ guardedKeys ++ unguardedKeys ∧ key ≠ "username" ∨ isEmailPath key = true)
    (h : resolveClear key path = .error e) : e.isUnsupportedPath = false := by
  rw [resolveClear] at h
  split_ifs at h with hempty hext hgiven hfamily hname hactive hemail
  · cases h
    rfl
  · rcases hkey with ⟨hkey, huser⟩ | hkey
    · simp only [guardedKeys, unguardedKeys, List.mem_append, List.mem_cons, List.not_mem_nil, or_false] at hkey
      rcases hkey with (hkey | hkey | hkey | hkey) | hkey | hkey | hkey <;> contradiction
    · contradiction

theorem handles_iff {path : String} :
    Handles U path ↔ pathKey U path ∈ guardedKeys ++ unguardedKeys ∨
      isEmailPath (pathKey U path) = true := by
  constructor
  · rintro ⟨u, raw, h⟩
    by_contra hno
    obtain ⟨hkey, hemail⟩ := not_or.mp hno
    rcases h with hset | hclear
    · have hrefused := hset (.unsupportedPath path)
      rw [setPath_resolve, resolveSet_unsupported hkey hemail] at hrefused
      cases hrefused rfl
    · have hrefused := hclear (.unsupportedPath path)
      rw [clearPath_resolve, resolveClear_unsupported hkey hemail] at hrefused
      cases hrefused rfl
  · intro h
    refine ⟨.zero, some (string ""), ?_⟩
    by_cases huser : pathKey U path = "username"
    · left
      intro e he
      rw [setPath_resolve, huser, resolveSet_username] at he
      cases he
    · right
      intro e he
      rw [clearPath_resolve] at he
      cases hclear : resolveClear (pathKey U path) path with
      | ok ch =>
        rw [hclear] at he
        cases he
      | error e' =>
        rw [hclear] at he
        cases he
        exact resolveClear_supported (h.imp_left fun hkey => ⟨hkey, huser⟩) hclear

/-- Where the lower case is ASCII, `strings.ToLower` is the one that the registry goes by. -/
theorem lower_reserved {name w : String} (hw : w ∈ reservedAttributes) (h : U.lower name = w) :
    reservedAttribute name = true := by
  have hascii : reservedAttributes.all (fun w => w.toList.all fun c => Nat.blt c.toNat 128) = true := by rfl
  have hchars : name.toList.map U.toLower = w.toList := by
    rw [← h, Unicode.lower, String.toList_ofList]
  have hlow : name.toList.map Store.asciiLower = w.toList := by
    rw [← hchars]
    refine List.map_congr_left fun c hc => ?_
    have hmem : U.toLower c ∈ w.toList := hchars ▸ List.mem_map_of_mem hc
    have hlt := List.all_eq_true.mp (List.all_eq_true.mp hascii w hw) _ hmem
    rw [Nat.blt_eq] at hlt
    exact (U.ascii c (Or.inl hlt)).symm
  rw [reservedAttribute, hlow, String.ofList_toList]
  exact decide_eq_true hw

theorem guarded_reserved {w : String} (h : w ∈ guardedKeys) : w ∈ reservedAttributes := by
  simp only [guardedKeys, List.mem_cons, List.not_mem_nil, or_false] at h
  rcases h with rfl | rfl | rfl | rfl <;> simp [reservedAttributes]

/-- The lowered name is none of the keys that only PATCH knows. -/
def FreeOfCore (U : Unicode) (name : String) : Prop :=
  U.lower name ∉ unguardedKeys ∧ isEmailPath (U.lower name) = false

theorem apart_of_free {name path : String} (h : FreeOfCore U name) (hfree : reservedAttribute name = false)
    (hcore : Handles U path) : pathKey U path ≠ U.lower name := by
  obtain ⟨hkeys, hemail⟩ := h
  intro heq
  rcases handles_iff.mp hcore with hkey | hpath
  · rw [heq] at hkey
    rcases List.mem_append.mp hkey with hkey | hkey
    · have hreserved := lower_reserved (guarded_reserved hkey) rfl
      rw [hreserved] at hfree
      cases hfree
    · exact hkeys hkey
  · rw [heq, hemail] at hpath
    cases hpath

theorem free_iff {name : String} (hname : trimSpace name = name) (hfree : reservedAttribute name = false) :
    (∀ path, Handles U path → pathKey U path ≠ U.lower name) ↔ FreeOfCore U name := by
  have hself : pathKey U name = U.lower name := by rw [pathKey, hname]
  constructor
  · intro h
    have hnot : ¬ Handles U name := fun hcore => h name hcore hself
    rw [handles_iff, hself, not_or] at hnot
    exact ⟨fun hmem => hnot.1 (List.mem_append_right _ hmem), by simpa using hnot.2⟩
  · exact fun h path => apart_of_free h hfree

/-- A name that `RegisterAttribute` accepts, trimmed as it stores it, is apart from every path of the core
exactly if it is free; and where only free names were registered, an operation on a core path stays one. -/
theorem core_paths_free_iff (pg : Postgres) (U : Unicode) (T : TimeText) :
    (∀ name, reservedAttribute (trimSpace name) = false →
      ((∀ path, Handles U path → pathKey U path ≠ U.lower (trimSpace name)) ↔
        FreeOfCore U (trimSpace name))) ∧
    ∀ db, ReachableIf pg U T (fun _ _ name => FreeOfCore U name) db → ∀ (tenantID : String) (s : Scheduled),
      Handles U s.op.path → trimSpace s.op.path ≠ "" →
        splitOp U (registeredAttributes U (db.attributesOf tenantID)) s = ([(s.op, s.apply)], []) := by
  refine ⟨fun name hfree => free_iff (trimSpace_trimSpace name) hfree, ?_⟩
  intro db h tenantID s hcore hpath
  have hapart : ∀ a ∈ db.attributes.rows, pathKey U s.op.path ≠ U.lower a.name :=
    registry_keeps (fun _ _ hok hfree => apart_of_free hok hfree hcore) h
  rw [splitOp, if_pos hpath]
  cases hfound : (registeredAttributes U (db.attributesOf tenantID)).canonical U (trimSpace s.op.path) with
  | none => rfl
  | some canon =>
    obtain ⟨a, ha, rfl, hlower⟩ := canonical_some hfound
    exact (hapart a (mem_attributesOf ha).1 hlower.symm).elim

def registering (pg : Postgres) (name : String) (db : Db) : Db :=
  operate pg Store.annSupply (Store.registerAttribute "t1" name "" "op") db

def givenNameOp : Scheduled := .sorted ⟨"replace", "name.givenName", some (string "Ann")⟩

theorem core_paths_free_costCenter : (∀ path, Handles .plain path → pathKey .plain path ≠ "costcenter") ∧
    splitOp .plain (registeredAttributes .plain ((registering Store.plainText "costCenter" .empty).attributesOf "t1")) givenNameOp =
      ([(givenNameOp.op, givenNameOp.apply)], []) := by
  have hlower : Unicode.plain.lower (trimSpace "costCenter") = "costcenter" := by rfl
  have hfree : FreeOfCore .plain (trimSpace "costCenter") := by
    rw [FreeOfCore, hlower]
    exact ⟨by simp [unguardedKeys], by rfl⟩
  have hunreserved : reservedAttribute (trimSpace "costCenter") = false := by
    unfold reservedAttribute
    rfl
  have htheorem := core_paths_free_iff Store.plainText .plain noTimes
  refine ⟨hlower ▸ (htheorem.1 "costCenter" hunreserved).mpr hfree, ?_⟩
  refine htheorem.2 _ (.register .empty "t1" "costCenter" "" "op" hfree Store.annSupply) "t1" givenNameOp ?_ ?_
  · exact handles_iff.mpr (Or.inl (by
      have hkey : pathKey .plain givenNameOp.op.path = "name.givenname" := by rfl
      simp [hkey, guardedKeys, unguardedKeys]))
  · have hpath : trimSpace givenNameOp.op.path = "name.givenName" := by rfl
    simp [hpath]

/-- Registered, the path of a name's part takes the value away from the core. -/
theorem givenName_captured : reservedAttribute (trimSpace "name.givenName") = false ∧
    Handles .plain "name.givenName" ∧
    pathKey .plain "name.givenName" = Unicode.plain.lower (trimSpace "name.givenName") ∧
    (splitOp .plain (registeredAttributes .plain ((registering Store.plainText "name.givenName" .empty).attributesOf "t1"))
      givenNameOp).1 = [] := by
  have hunreserved : reservedAttribute (trimSpace "name.givenName") = false := by
    unfold reservedAttribute
    rfl
  refine ⟨hunreserved, ?_, rfl, ?_⟩
  · have hkey : pathKey .plain "name.givenName" = "name.givenname" := by rfl
    exact handles_iff.mpr (Or.inl (by simp [hkey, guardedKeys, unguardedKeys]))
  · rw [registering, Store.registerAttribute]
    simp only [hunreserved, Bool.false_eq_true, if_false]
    rfl

end Scimage.Scim
