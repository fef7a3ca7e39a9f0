import Scimage.Scim.Batch
import Scimage.Scim.OnePass
import Scimage.Scim.Casing

/-! One value, read by a PUT and by a PATCH. -/
namespace Scimage.Scim

open Txn Engine
open Store (engine Db Env DbError StoreWorld Postgres Resource Uuid UserRow scanUser replaceUser jsonbParam
  userConflict trimSpace)
open Json (Value Text quote)
open Relational (Table)

/-! ### Attributes -/

/-- The attributes of the core that a body and a path can name. -/
inductive CoreAttribute where
  | userName | externalID | active | name | emails
  deriving DecidableEq

def CoreAttribute.field : CoreAttribute → String
  | .userName => "userName"
  | .externalID => "externalId"
  | .active => "active"
  | .name => "name"
  | .emails => "emails"

def CoreAttribute.columns : CoreAttribute → List Column
  | .userName => [.userName]
  | .externalID => [.externalID]
  | .active => [.active]
  | .name => [.givenName, .familyName]
  | .emails => [.email]

/-- An object with this member, and no other one that is read for the attribute. -/
def Holds (a : CoreAttribute) (v body : Value) : Prop :=
  ∃ before key after, body = .obj (before ++ (key, v) :: after) ∧ key.string = a.field ∧
    ∀ m ∈ before ++ after, names a.field m.1.string = false

/-- The field of an attribute is the same. -/
def CoreAttribute.Same (a : CoreAttribute) (u u' : User) : Prop :=
  match a with
  | .userName => u'.userName = u.userName
  | .externalID => u'.externalID = u.externalID
  | .active => u'.active = u.active
  | .name => u'.name = u.name
  | .emails => u'.emails = u.emails

variable {U : Unicode} {T : TimeText} {a : CoreAttribute} {u u' u₀ u₁ u₂ : User} {v body : Value}
  {key : String}

theorem CoreAttribute.Same.refl (a : CoreAttribute) (u : User) : a.Same u u := by
  cases a <;> exact Eq.refl _

theorem CoreAttribute.Same.trans (h : a.Same u₀ u₁) (h' : a.Same u₁ u₂) : a.Same u₀ u₂ := by
  cases a <;> exact Eq.trans h' h

/-- The same field comes to the same columns. -/
theorem CoreAttribute.Same.cell_eq (h : a.Same u u') {c : Column} (hc : c ∈ a.columns) :
    cell u' c = cell u c := by
  cases a with
  | userName =>
    obtain rfl := List.mem_singleton.mp hc
    exact congrArg Cell.text h
  | externalID =>
    obtain rfl := List.mem_singleton.mp hc
    exact congrArg Cell.text h
  | active =>
    obtain rfl := List.mem_singleton.mp hc
    exact congrArg (fun o : Option Bool => Cell.flag (o.getD true)) h
  | name =>
    simp only [CoreAttribute.columns, List.mem_cons, List.not_mem_nil, or_false] at hc
    rcases hc with rfl | rfl
    · exact congrArg (fun o : Option Name => Cell.text (o.getD .zero).givenName) h
    · exact congrArg (fun o : Option Name => Cell.text (o.getD .zero).familyName) h
  | emails =>
    obtain rfl := List.mem_singleton.mp hc
    exact congrArg (fun es : Slice Email => Cell.text (primaryEmail es.items)) h

/-! ### What a PUT reads -/

theorem set_same (h : names a.field key = false) (hset : User.set U T u key v = some u') :
    a.Same u u' := by
  have hnot : ¬ names a.field key = true := Bool.eq_false_iff.mp h
  rw [User.set] at hset
  split_ifs at hset <;>
    first
      | cases hset
        exact CoreAttribute.Same.refl _ _
      -- One field was set: another one than the attribute's, or else the key names the attribute.
      | obtain ⟨x, -, rfl⟩ := Option.map_eq_some_iff.mp hset
        cases a <;> first | rfl | exact (hnot ‹_›).elim

theorem set_own (u : User) (v : Value) : User.set U T u a.field v =
    match a with
    | .userName => (readString u.userName v).map fun s => { u with userName := s }
    | .externalID => (readString u.externalID v).map fun s => { u with externalID := s }
    | .active => (readPtr (fun _ v => readBool U v) false u.active v).map fun b => { u with active := b }
    | .name => (readPtr readName Name.zero u.name v).map fun n => { u with name := n }
    | .emails => (readSlice (readEmail U) Email.zero u.emails v).map fun s => { u with emails := s } := by
  cases a <;> rfl

theorem put_reads (h : Holds a v body) (hread : readUser U T body = some u) :
    ∃ u₀ u₁, a.Same .zero u₀ ∧ User.set U T u₀ a.field v = some u₁ ∧ a.Same u₁ u := by
  obtain ⟨before, key, after, rfl, hkey, hothers⟩ := h
  have hkeeps : ∀ {ms : List (Text × Value)} {x y : User},
      (∀ m ∈ ms, names a.field m.1.string = false) →
      ms.foldlM (fun u m => User.set U T u m.1.string m.2) x = some y → a.Same x y := by
    intro ms x y hms hfold
    exact readStruct_keeps (fun m hm b d hb hset => hb.trans (set_same (hms m hm) hset))
      (CoreAttribute.Same.refl a x) hfold
  rw [readUser, readStruct, List.foldlM_append] at hread
  obtain ⟨u₀, h₀, hrest⟩ := Option.bind_eq_some_iff.mp hread
  rw [List.foldlM_cons] at hrest
  obtain ⟨u₁, h₁, h₂⟩ := Option.bind_eq_some_iff.mp hrest
  rw [hkey] at h₁
  exact ⟨u₀, u₁, hkeeps (fun m hm => hothers m (List.mem_append_left _ hm)) h₀, h₁,
    hkeeps (fun m hm => hothers m (List.mem_append_right _ hm)) h₂⟩

/-! ### What a PATCH reads -/

/-- The value that a PUT takes for nothing and a PATCH for `false`, and the one that a PATCH refuses. -/
def ReadsApart (a : CoreAttribute) (v : Value) : Prop :=
  a = .active ∧ v = .null ∨ a = .emails ∧ v = .arr []

theorem pathKey_field (U : Unicode) (a : CoreAttribute) : pathKey U a.field =
    match a with
    | .userName => "username"
    | .externalID => "externalid"
    | .active => "active"
    | .name => "name"
    | .emails => "emails" := by
  have hlower := core_lower U
  simp only [coreKeys, optionalKeys, coreLowered, List.map_cons, List.map_nil, List.cons.injEq] at hlower
  obtain ⟨-, -, hexternalID, huserName, hname, hemails, hactive, -⟩ := hlower
  have htrim : trimSpace a.field = a.field := by cases a <;> rfl
  rw [pathKey, htrim]
  cases a with
  | userName => exact huserName
  | externalID => exact hexternalID
  | active => exact hactive
  | name => exact hname
  | emails => exact hemails

theorem resolve_own (U : Unicode) (a : CoreAttribute) (raw : Option Value) :
    resolveSet U (pathKey U a.field) a.field raw =
      match a with
      | .userName => (assignString raw "userName").map .userName
      | .externalID => (assignString raw "externalId").map .externalID
      | .active => (decode (readBool U) raw .active).map .active
      | .name => (decode (readName .zero) raw .name).map .name
      | .emails => (readEmails U "emails" raw).map .emails := by
  rw [pathKey_field]
  cases a <;> rfl

/-- The change writes the columns of the attribute, as `u` has them, and no others. -/
structure Copies (ch : Change) (a : CoreAttribute) (u : User) : Prop where
  own : ∀ c ∈ a.columns, ∃ x, ch.writes c = some x ∧ c.store x = c.store (cell u c) ∧
    (c.Valid (cell u c) → c.Valid x)
  others : ∀ c, c ∉ a.columns → ch.writes c = none

theorem copies_same {ch : Change} (hown : ∀ c ∈ a.columns, ch.writes c = some (cell u c))
    (hothers : ∀ c, c ∉ a.columns → ch.writes c = none) : Copies ch a u :=
  ⟨fun c hc => ⟨cell u c, hown c hc, rfl, fun h => h⟩, hothers⟩

theorem Copies.congr {ch : Change} (h : Copies ch a u) (hsame : a.Same u u') : Copies ch a u' := by
  refine ⟨fun c hc => ?_, h.others⟩
  rw [hsame.cell_eq hc]
  exact h.own c hc

theorem readElems_ne_nil {α : Type} {elem : α → Value → Option α} {zero : α} {old items : List α}
    {x : Value} {xs : List Value} (h : readElems elem zero old (x :: xs) = some items) : items ≠ [] := by
  rw [readElems] at h
  obtain ⟨b, -, hrest⟩ := Option.bind_eq_some_iff.mp h
  obtain ⟨bs, -, hitems⟩ := Option.bind_eq_some_iff.mp hrest
  cases hitems
  exact List.cons_ne_nil b bs

theorem primaryEmail_single (es : List Email) : primaryEmail [⟨primaryEmail es, true⟩] = primaryEmail es :=
  trimSpace_primaryEmail es

/-- ReadsApart from the two, a value comes to the same columns. -/
theorem reads_alike (hzero : a.Same .zero u₀) (hset : User.set U T u₀ a.field v = some u₁)
    (hv : ¬ ReadsApart a v) :
    ∃ ch, resolveSet U (pathKey U a.field) a.field (some v) = .ok ch ∧ Copies ch a u₁ := by
  rw [set_own] at hset
  rw [resolve_own]
  cases a with
  | userName =>
    obtain ⟨s, hs, rfl⟩ := Option.map_eq_some_iff.mp hset
    have hread : readString "" v = some s := by
      rw [← hs]
      exact congrArg (fun old => readString old v) hzero.symm
    refine ⟨.userName s, by simp only [assignString, decode, Option.bind_some, hread]; rfl, ?_⟩
    refine copies_same (fun c hc => ?_) fun c hc => ?_
    · obtain rfl := List.mem_singleton.mp hc
      rfl
    · cases c <;> first | rfl | exact absurd (List.mem_singleton_self _) hc
  | externalID =>
    obtain ⟨s, hs, rfl⟩ := Option.map_eq_some_iff.mp hset
    have hread : readString "" v = some s := by
      rw [← hs]
      exact congrArg (fun old => readString old v) hzero.symm
    refine ⟨.externalID s, by simp only [assignString, decode, Option.bind_some, hread]; rfl, ?_⟩
    refine copies_same (fun c hc => ?_) fun c hc => ?_
    · obtain rfl := List.mem_singleton.mp hc
      rfl
    · cases c <;> first | rfl | exact absurd (List.mem_singleton_self _) hc
  | active =>
    obtain ⟨o, ho, rfl⟩ := Option.map_eq_some_iff.mp hset
    have hnull : v ≠ .null := fun hv' => hv (Or.inl ⟨rfl, hv'⟩)
    obtain ⟨b, hb, rfl⟩ : ∃ b, readBool U v = some b ∧ some b = o := by
      cases v with
      | null => exact absurd rfl hnull
      | _ => exact Option.map_eq_some_iff.mp ho
    refine ⟨.active b, by simp only [decode, Option.bind_some, hb]; rfl, ?_⟩
    refine copies_same (fun c hc => ?_) fun c hc => ?_
    · obtain rfl := List.mem_singleton.mp hc
      rfl
    · cases c <;> first | rfl | exact absurd (List.mem_singleton_self _) hc
  | name =>
    obtain ⟨o, ho, rfl⟩ := Option.map_eq_some_iff.mp hset
    have hold : u₀.name = none := hzero
    obtain ⟨n, hn, hcells⟩ : ∃ n, readName .zero v = some n ∧ o.getD .zero = n := by
      rw [hold] at ho
      cases v with
      | null =>
        cases ho
        exact ⟨.zero, rfl, rfl⟩
      | obj ms =>
        obtain ⟨n, hn, rfl⟩ := Option.map_eq_some_iff.mp ho
        exact ⟨n, hn, rfl⟩
      | bool b => cases ho
      | num n => cases ho
      | str t => cases ho
      | arr xs => cases ho
    refine ⟨.name n, by simp only [decode, Option.bind_some, hn]; rfl, ?_⟩
    refine copies_same (fun c hc => ?_) fun c hc => ?_
    · simp only [CoreAttribute.columns, List.mem_cons, List.not_mem_nil, or_false] at hc
      rcases hc with rfl | rfl
      · exact congrArg (fun n : Name => some (Cell.text n.givenName)) hcells.symm
      · exact congrArg (fun n : Name => some (Cell.text n.familyName)) hcells.symm
    · cases c <;> first | rfl | exact absurd (by simp [CoreAttribute.columns]) hc
  | emails =>
    obtain ⟨s, hs, rfl⟩ := Option.map_eq_some_iff.mp hset
    have hold : u₀.emails = .nil := hzero
    rw [hold] at hs
    have hread : readEmails U "emails" (some v) = .ok (.of [⟨primaryEmail s.items, true⟩]) := by
      cases v with
      | null =>
        cases hs
        rfl
      | arr xs =>
        cases xs with
        | nil => exact absurd (Or.inr ⟨rfl, rfl⟩) hv
        | cons x xs =>
          have hne : s.items ≠ [] := by
            obtain ⟨items, hitems, rfl⟩ := Option.map_eq_some_iff.mp hs
            exact readElems_ne_nil hitems
          have hmany : ((some (Value.arr (x :: xs))).bind (readSlice (readEmail U) .zero .nil)).filter
              (fun many => many.items ≠ []) = some s := by
            rw [Option.bind_some, hs, Option.filter_some, if_pos (decide_eq_true hne)]
          have hone : (some (Value.arr (x :: xs))).bind (readEmail U .zero) = none := rfl
          have hstring : (some (Value.arr (x :: xs))).bind (readString "") = none := rfl
          rw [readEmails, hstring, hone]
          dsimp only [Option.filter_none]
          rw [hmany]
      | bool b => cases hs
      | num n => cases hs
      | str t => cases hs
      | obj ms => cases hs
    refine ⟨.emails (.of [⟨primaryEmail s.items, true⟩]), by rw [hread]; rfl, ⟨fun c hc => ?_, ?_⟩⟩
    · obtain rfl := List.mem_singleton.mp hc
      have hsame := primaryEmail_single s.items
      refine ⟨_, rfl, ?_, ?_⟩
      · exact congrArg (fun p => Column.email.store (.text p)) hsame
      · exact fun hvalid => (congrArg (fun p => Column.email.Valid (.text p)) hsame).mpr hvalid
    · intro c hc
      cases c <;> first | rfl | exact absurd (List.mem_singleton_self _) hc

/-! ### The operation -/

theorem trimSpace_field (a : CoreAttribute) : trimSpace a.field = a.field := by
  cases a <;> rfl

theorem field_ne (a : CoreAttribute) : a.field ≠ "" := by
  cases a <;> decide

theorem action_replace (U : Unicode) (path : String) (raw : Option Value) :
    Operation.action U ⟨"replace", path, raw⟩ = "replace" := by
  have hascii : "replace".toList.all (fun c => (Store.asciiLower c).toNat < 128) = true := by rfl
  have htrim : trimSpace "replace" = "replace" := by rfl
  rw [Operation.action, htrim, lower_ascii U fun c hc => of_decide_eq_true (List.all_eq_true.mp hascii c hc)]
  rfl

/-- The core attributes are not in the registry. -/
theorem field_unregistered {h : Handler} {pg : Postgres} {db : Db} (hkept : DirectoryKept pg db)
    (tenantID : String) (a : CoreAttribute) :
    (h.registryOf db tenantID).canonical h.unicode a.field = none := by
  unfold Handler.registryOf
  split_ifs
  · by_contra hsome
    obtain ⟨canon, hcanon⟩ := Option.ne_none_iff_exists'.mp hsome
    obtain ⟨x, hx, rfl, hlower⟩ := canonical_some hcanon
    have hcore : a.field ∈ coreKeys := by cases a <;> simp [coreKeys, optionalKeys, CoreAttribute.field]
    have hreserved := core_lower_reserved hcore hlower
    rw [hkept.attributes x (mem_attributesOf hx).1] at hreserved
    cases hreserved
  · rfl

/-- A PATCH with one operation that replaces an attribute. -/
theorem patchUser_replace {registered : Registry} {existing : Store.User} {baseURL : String} {s : Scheduled}
    (hop : s.op = ⟨"replace", a.field, some v⟩) (hfree : registered.canonical U a.field = none) :
    patchUser U registered existing baseURL [s] =
      match resolveSet U (pathKey U a.field) a.field (some v) with
      | .error e => .error (.patch e)
      | .ok ch => finishPatch existing (ch.run (fromStoreUser existing baseURL)) [] := by
  have htrim := trimSpace_field a
  have hpath : trimSpace s.op.path ≠ "" := by
    rw [hop]
    exact fun he => field_ne a (htrim.symm.trans he)
  have hentries : ∀ ω, entries U ω s.op = [⟨some a.field, some v, .set a.field (some v)⟩] := by
    intro ω
    rw [entries, if_pos hpath, pathStep, hop, action_replace, if_pos (Or.inr rfl)]
    dsimp only
    rw [htrim]
  have hcore : coreSteps U registered s = [.set a.field (some v)] := by
    rw [coreSteps, hentries, List.filterMap_cons, core_keyed, hfree]
    rfl
  have hext : extendedSteps U registered s = [] := by
    rw [extendedSteps, hentries, List.filterMap_cons, extended_keyed, hfree]
    rfl
  have hnames : (splitExtendedOps U registered [s]).1 ≠ [] ∨ (splitExtendedOps U registered [s]).2 ≠ [] :=
    splitExtendedOps_names ⟨s, List.mem_singleton_self s, Or.inl hpath⟩
  have hcores : [s].flatMap (coreSteps U registered) = [.set a.field (some v)] := by
    rw [List.flatMap_cons, hcore]
    rfl
  have hexts : [s].flatMap (extendedSteps U registered) = [] := by
    rw [List.flatMap_cons, hext]
    rfl
  rw [patchUser_steps, if_neg fun hnil => hnames.elim (fun hne => hne hnil.1) fun hne => hne hnil.2, hcores,
    hexts, resolveAll, resolve]
  cases resolveSet U (pathKey U a.field) a.field (some v) <;> rfl

theorem finishPatch_get {existing su : Store.User} {exts : List ExtendedOp}
    (h : finishPatch existing u exts = .ok su) (c : Column) : c.get su = c.store (cell u c) := by
  rw [finishPatch] at h
  split_ifs at h
  split at h
  · cases h
  · cases h
    rw [get_blob, get_toStoreUser]

/-- What is copied comes to the columns that it was read into, the others keep theirs, and the whole is
let pass where both are. -/
theorem patchUser_copies (baseURL : String) {registered : Registry} {existing : Store.User} {s : Scheduled}
    {ch : Change} (hop : s.op = ⟨"replace", a.field, some v⟩)
    (hfree : registered.canonical U a.field = none)
    (hresolve : resolveSet U (pathKey U a.field) a.field (some v) = .ok ch) (hcopies : Copies ch a u)
    (hvalid : validate u = "") (hexisting : Validated existing) :
    ∃ su, patchUser U registered existing baseURL [s] = .ok su ∧
      su.extendedAttributes = existing.extendedAttributes ∧
      (∀ c ∈ a.columns, c.get su = c.get (toStoreUser u)) ∧
      ∀ c, c ∉ a.columns → c.get su = c.get existing := by
  have hbefore := (validate_iff _).mp (validate_fromStoreUser hexisting baseURL)
  have hpasses : validate (ch.run (fromStoreUser existing baseURL)) = "" := by
    refine (validate_iff _).mpr ⟨?_, fun c => ?_⟩
    · have hschemas : (ch.run (fromStoreUser existing baseURL)).schemas =
          (fromStoreUser existing baseURL).schemas := schemas_runAll [ch] _
      rw [hschemas]
      exact hbefore.1
    · rw [cell_run]
      by_cases hc : c ∈ a.columns
      · obtain ⟨x, hx, -, hx'⟩ := hcopies.own c hc
        rw [hx]
        exact hx' (((validate_iff u).mp hvalid).2 c)
      · rw [hcopies.others c hc]
        exact hbefore.2 c
  refine ⟨{ toStoreUser (ch.run (fromStoreUser existing baseURL)) with
    extendedAttributes := existing.extendedAttributes }, ?_, rfl, fun c hc => ?_, fun c hc => ?_⟩
  · rw [patchUser_replace hop hfree, hresolve]
    dsimp only
    rw [finishPatch, if_neg (not_not.mpr hpasses), applyExtendedOps, if_pos rfl]
  · obtain ⟨x, hx, hstore, -⟩ := hcopies.own c hc
    rw [get_blob, get_toStoreUser, get_toStoreUser, cell_run, hx]
    exact hstore
  · rw [get_blob, get_toStoreUser, cell_run, hcopies.others c hc]
    exact store_fromStoreUser hexisting.written baseURL c

/-! ### Requests -/

section Requests

variable {pg : Postgres} {supply again : Nat → Supply Env DbError} {db db' : Db} {h : Handler}
  {r t : Request}

theorem received_status {resp : Response} (hbody : received r = .error resp) : resp.status ≠ 200 := by
  unfold received at hbody
  cases hr : r.body with
  | value v =>
    rw [hr] at hbody
    cases hbody
  | malformed =>
    rw [hr] at hbody
    cases hbody
    decide
  | tooLarge =>
    rw [hr] at hbody
    cases hbody
    decide

/-- A PUT that went through. -/
structure PutDone (pg : Postgres) (h : Handler) (r : Request) (db : Db) (u : User)
    (c row : UserRow) (db' : Db) : Prop where
  decoded : ∃ keys, h.decodedUser r = .ok (u, keys)
  found : db.userAt r.tenantID r.id = some c
  stored : ∃ su now ext, row = replaceUser now su ext c ∧
    ∀ col : Column, col.get su = col.get (toStoreUser u)
  free : userConflict pg db row = none
  directory : SameDirectory { db with users := db.users.put row } db'

/-- Whatever stops a PUT, it is not answered 200. -/
theorem leads_replace_stopped {w : StoreWorld} :
    (engine pg).Leads supply (h.replace r) (fun _ _ => True) (fun resp _ => resp.status ≠ 200) w := by
  refine leads_bind.mpr (leads_ofExcept.mpr ?_)
  cases hdecode : h.decodedUser r with
  | error resp =>
    rcases bind_error hdecode with hbody | ⟨v, -, hchecked⟩
    · exact received_status hbody
    · obtain ⟨e, -, rfl⟩ := checked_error hchecked
      exact refusal_status e
  | ok x =>
    refine leads_bind.mpr (leads_ofExcept.mpr ?_)
    cases hid : sameID r x.1.id with
    | error resp =>
      unfold sameID at hid
      split_ifs at hid
      cases hid
      exact refusal_status .mutability
    | ok _ =>
      refine leads_bind.mpr (leads_registered_stopped.mono ?_ fun _ _ hresp => hresp)
      intro registry w₁ _
      exact leads_bind.mpr (leads_refusedWith.mpr (leads_any.mono (fun _ _ _ => trivial)
        fun e _ _ => updateError_status e))

theorem put_done (hs : (serve pg supply (h.mutate r .user .put) db).1.status = 200) :
    ∃ u c row, PutDone pg h r db u c row (serve pg supply (h.mutate r .user .put) db).2 := by
  have hw : (World.start db : StoreWorld).Idle db := ⟨rfl, rfl⟩
  refine leads_serve (Q := fun resp db' => resp.status = 200 → ∃ u c row, PutDone pg h r db u c row db')
    ?_ hs
  change (engine pg).Leads supply (h.replace r) _ _ _
  have hput : (engine pg).Leads supply (h.replace r)
      (fun _ w => ∃ u c row, PutDone pg h r db u c row w.db) (fun _ _ => True) (World.start db) := by
    refine leads_replace hw ?_ fun _ _ _ _ _ => trivial
    rintro u keys now ch ws db' w' hdecode - hx hlogged ⟨rfl, -⟩
    obtain ⟨c, ext, hc, -, hfree, -, rfl⟩ := Store.execUpdateUser_ok.mp hx
    refine ⟨u, c, _, ⟨keys, hdecode⟩, hc, ⟨_, now, ext, rfl, ?_⟩, hfree, .of_logged hlogged⟩
    exact fun col => get_blob col (toStoreUser u) _
  refine (hput.and leads_replace_stopped).mono ?_ ?_
  · exact fun _ _ hdone _ => hdone.1
  · exact fun _ _ hstopped hstatus => (hstopped.2 hstatus).elim

/-- A user that has its name and its identifier from two that the indexes let stand is let stand. -/
theorem free_of_columns {now now' : Store.Time} {su su' : Store.User} {ext ext' : Option String}
    {c : UserRow} (hfree : userConflict pg db (replaceUser now su ext c) = none)
    (hstands : userConflict pg db c = none)
    (hname : Column.userName.get su' = Column.userName.get su ∨
      Column.userName.get su' = Column.userName.get (scanUser c))
    (hexternal : Column.externalID.get su' = Column.externalID.get su ∨
      Column.externalID.get su' = Column.externalID.get (scanUser c)) :
    userConflict pg db (replaceUser now' su' ext' c) = none := by
  rw [Store.userConflict_none] at hfree hstands ⊢
  intro y hy hid htenant
  obtain ⟨hput, hputs⟩ := hfree y hy hid htenant
  obtain ⟨hold, holds⟩ := hstands y hy hid htenant
  refine ⟨?_, ?_⟩
  · change pg.lower y.userName ≠ pg.lower su'.userName
    rcases hname with hname | hname
    · rw [Option.some.inj (Stored.text.inj hname)]
      exact hput
    · rw [Option.some.inj (Stored.text.inj hname)]
      exact hold
  · change su'.externalID.isSome → y.externalID ≠ su'.externalID
    rcases hexternal with hexternal | hexternal
    · rw [Stored.text.inj hexternal]
      exact hputs
    · rw [Stored.text.inj hexternal]
      exact holds

/-- Where an accepted PUT stores `su`, a PATCH that copies is accepted and stores the same. -/
theorem patch_copies (laws : JsonbLaws pg) (hkept : DirectoryKept pg db) (hquiet : Quiet again) {p : PatchOp}
    {c : UserRow} {s : Scheduled} {ch : Change} {su : Store.User} {now : Store.Time} {ext : Option String}
    (hp : receivedPatch t = .ok p) (hfound : db.userAt t.tenantID t.id = some c)
    (hscheduled : scheduled t.orders p.operations.items = [s]) (hs : s.op = ⟨"replace", a.field, some v⟩)
    (hresolve : resolveSet h.unicode (pathKey h.unicode a.field) a.field (some v) = .ok ch)
    (hcopies : Copies ch a u) (hvalid : validate u = "")
    (hcols : ∀ col : Column, col.get su = col.get (toStoreUser u))
    (hfree : userConflict pg db (replaceUser now su ext c) = none) :
    (serve pg again (h.mutate t .user .patch) db).1.status = 200 ∧
      ∃ two, (serve pg again (h.mutate t .user .patch) db).2.userAt t.tenantID t.id = some two ∧
        ∀ col ∈ a.columns, col.get (scanUser two) = col.get su := by
  have hc := Table.find?_mem (Store.userAt_eq_some.mp hfound).2.1
  have hkeptc := hkept.users c hc
  obtain ⟨su', hsu', hblob, hown, hothers⟩ := patchUser_copies t.baseURL hs
    (field_unregistered hkept t.tenantID a) hresolve hcopies hvalid hkeptc.validated
  have heither : ∀ col : Column, col.get su' = col.get su ∨ col.get su' = col.get (scanUser c) := by
    intro col
    by_cases hcol : col ∈ a.columns
    · exact Or.inl ((hown col hcol).trans (hcols col).symm)
    · exact Or.inr (hothers col hcol)
  have hext : jsonbParam pg su'.extendedAttributes = .ok c.extendedAttributes := by
    rw [hblob]
    exact getD_parses laws hkeptc.blob
  rw [← hscheduled] at hsu'
  have hgoes := patch_goes_through hquiet hp hfound hsu' hext fun now' =>
    free_of_columns hfree (hkept.distinct c hc) (heither .userName) (heither .externalID)
  refine ⟨hgoes, ?_⟩
  obtain ⟨p', c', row', hpatch⟩ := patch_done hgoes
  cases hp.symm.trans hpatch.received
  cases hfound.symm.trans hpatch.found
  obtain ⟨su'', now', ext'', hsu'', -, rfl⟩ := hpatch.stored
  cases hsu'.symm.trans hsu''
  have htwo : (serve pg again (h.mutate t .user .patch) db).2.userAt t.tenantID t.id =
      some (replaceUser now' su' ext'' c) := userAt_put hfound rfl rfl hpatch.directory.1
  refine ⟨_, htwo, fun col hcol => ?_⟩
  rw [get_replaced]
  exact (hown col hcol).trans (hcols col).symm

/-- A PATCH with the value of an accepted PUT is accepted and stores what the PUT stores, unless the value is
one of the two. -/
theorem readings_agree_iff (laws : JsonbLaws pg) (hreach : Reachable pg U T db) (hquiet : Quiet again)
    (hsame : t.tenantID = r.tenantID ∧ t.id = r.id) (hbody : r.body = .value body) (hholds : Holds a v body)
    (hop : ∃ p, receivedPatch t = .ok p ∧ p.operations.items = [⟨"replace", a.field, some v⟩])
    (hput : (serve pg supply (h.mutate r .user .put) db).1.status = 200) :
    ((serve pg again (h.mutate t .user .patch) db).1.status = 200 ∧
      ∃ one two, (serve pg supply (h.mutate r .user .put) db).2.userAt r.tenantID r.id = some one ∧
        (serve pg again (h.mutate t .user .patch) db).2.userAt r.tenantID r.id = some two ∧
        ∀ c ∈ a.columns, c.get (scanUser two) = c.get (scanUser one)) ↔ ¬ ReadsApart a v := by
  obtain ⟨p, hp, hitems⟩ := hop
  obtain ⟨u, c, row, hdone⟩ := put_done hput
  generalize (serve pg supply (h.mutate r .user .put) db).2 = db₁ at *
  obtain ⟨keys, hdecode⟩ := hdone.decoded
  obtain ⟨hvalid, v', hv', hread, -⟩ := decodedUser_ok hdecode
  cases hbody.symm.trans hv'
  obtain ⟨u₀, u₁, hzero, hset, hlast⟩ := put_reads hholds hread
  obtain ⟨su, now, ext, rfl, hcols⟩ := hdone.stored
  have hone : db₁.userAt r.tenantID r.id = some (replaceUser now su ext c) :=
    userAt_put hdone.found rfl rfl hdone.directory.1
  have hfound : db.userAt t.tenantID t.id = some c := by
    rw [hsame.1, hsame.2]
    exact hdone.found
  have hkept := reachable_kept hreach
  have hunregistered := field_unregistered (h := h) hkept t.tenantID a
  obtain ⟨s, hs, hscheduled⟩ : ∃ s : Scheduled, s.op = ⟨"replace", a.field, some v⟩ ∧
      scheduled t.orders p.operations.items = [s] := by
    rw [hitems]
    exact ⟨_, rfl, rfl⟩
  have hcolumns : ∀ col ∈ a.columns,
      col.get (scanUser (replaceUser now su ext c)) = col.store (cell u₁ col) := by
    intro col hcol
    rw [get_replaced, hcols col, get_toStoreUser, hlast.cell_eq hcol]
  constructor
  · rintro ⟨hstatus, one, two, hone', htwo, hagree⟩ hapart
    obtain ⟨p', c', row', hpatch⟩ := patch_done hstatus
    cases hp.symm.trans hpatch.received
    cases hfound.symm.trans hpatch.found
    obtain ⟨su', now', ext', hsu', -, rfl⟩ := hpatch.stored
    rw [hscheduled, patchUser_replace hs hunregistered, resolve_own] at hsu'
    rcases hapart with ⟨rfl, rfl⟩ | ⟨rfl, rfl⟩
    · have hfalls : (serve pg again (h.mutate t .user .patch) db).2.userAt t.tenantID t.id =
          some (replaceUser now' su' ext' c) := userAt_put hfound rfl rfl hpatch.directory.1
      rw [hsame.1, hsame.2, htwo] at hfalls
      cases hfalls
      cases hone.symm.trans hone'
      have hflag := hagree .active (List.mem_singleton_self _)
      rw [hcolumns .active (List.mem_singleton_self _), get_replaced, finishPatch_get hsu', cell_run] at hflag
      cases hset
      cases hflag
    · cases hsu'
  · intro hapart
    obtain ⟨ch, hresolve, hcopies⟩ := reads_alike hzero hset hapart
    obtain ⟨hgoes, two, htwo, hagree⟩ := patch_copies laws hkept hquiet hp hfound hscheduled hs hresolve
      (hcopies.congr hlast) hvalid hcols hdone.free
    rw [hsame.1, hsame.2] at htwo
    refine ⟨hgoes, _, two, hone, htwo, fun col hcol => ?_⟩
    rw [get_replaced]
    exact hagree col hcol

end Requests

/-! An `active` of `null` switches on in a PUT, and off in a PATCH. -/

def annPut (key : String) (v : Value) : Request :=
  requestFor Store.someUuid.text
    (.obj [(quote "schemas", .arr [string userSchema]), (quote "userName", string "ann"), (quote key, v)])

theorem annPut_holds (v : Value) : Holds .active v (.obj [(quote "schemas", .arr [string userSchema]),
    (quote "userName", string "ann"), (quote "active", v)]) := by
  refine ⟨[(quote "schemas", .arr [string userSchema]), (quote "userName", string "ann")], quote "active", [],
    rfl, by rfl, by decide⟩

theorem readings_agree_switchOff :
    (serve blobless paulSupply (plainHandler.mutate switchOff .user .patch) oneAnn).1.status = 200 := by
  have hquiet : Quiet paulSupply := fun _ => rfl
  have hput : (serve blobless Store.annSupply
      (plainHandler.mutate (annPut "active" (.bool false)) .user .put) oneAnn).1.status = 200 := by rfl
  have hop : ∃ p, receivedPatch switchOff = .ok p ∧
      p.operations.items = [⟨"replace", CoreAttribute.active.field, some (.bool false)⟩] :=
    ⟨_, rfl, by rfl⟩
  have hapart : ¬ ReadsApart .active (.bool false) := by simp [ReadsApart]
  exact ((readings_agree_iff (r := annPut "active" (.bool false)) (t := switchOff) (h := plainHandler)
    blobless_laws oneAnn_reachable hquiet ⟨rfl, rfl⟩ rfl
    (annPut_holds (.bool false)) hop hput).mpr hapart).1

/-- The status of an answer, and whether the user is active after it. -/
def answered (r : Request) (m : Method) : Nat × Option Bool :=
  let served := serve blobless Store.annSupply (plainHandler.mutate r .user m) oneAnn
  (served.1.status, (served.2.userAt r.tenantID r.id).map (·.active))

theorem readings_apart :
    answered (annPut "active" .null) .put = (200, some true) ∧
      answered (patching [replacing "active" .null]) .patch = (200, some false) ∧
      (answered (annPut "emails" (.arr [])) .put).1 = 200 ∧
      (answered (patching [replacing "emails" (.arr [])]) .patch).1 = 400 := by
  refine ⟨by rfl, by rfl, by rfl, by rfl⟩

end Scimage.Scim
