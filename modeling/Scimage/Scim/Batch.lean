import Scimage.Lib.JsonDatum
import Scimage.Scim.Frame
import Scimage.Scim.Lookup

/-! Two PATCHes of a user, and both of them at once. -/
namespace Scimage.Scim

open Txn Engine
open Store (engine Db Env DbError StoreWorld Postgres UserRow userConflict replaceUser jsonbParam scanUser)
open Relational (Table)
open Json (Value Map quote)

/-! ### The columns -/

theorem resolveAll_append {U : Unicode} {sts sts' : List Step} {chs chs' : List Change}
    (h : resolveAll U sts = .ok chs) (h' : resolveAll U sts' = .ok chs') :
    resolveAll U (sts ++ sts') = .ok (chs ++ chs') := by
  induction sts generalizing chs with
  | nil =>
    cases h
    exact h'
  | cons st sts ih =>
    rw [resolveAll] at h
    cases hst : resolve U st with
    | error e =>
      rw [hst] at h
      cases h
    | ok ch =>
      rw [hst] at h
      obtain ⟨chs₁, hsts, rfl⟩ := map_ok h
      rw [List.cons_append, resolveAll, hst, ih hsts]
      rfl

theorem runAll_append (chs chs' : List Change) (u : User) :
    runAll (chs ++ chs') u = runAll chs' (runAll chs u) := List.foldl_append

theorem store_writes (chs : List Change) {c : Column} {x y : Cell} (h : c.store x = c.store y) :
    c.store (chs.foldl (fun x ch => (ch.writes c).getD x) x) =
      c.store (chs.foldl (fun x ch => (ch.writes c).getD x) y) := by
  induction chs generalizing x y with
  | nil => exact h
  | cons ch chs ih =>
    rw [List.foldl_cons, List.foldl_cons]
    refine ih ?_
    cases ch.writes c with
    | none => exact h
    | some w => rfl

/-- Either nothing is written into a column, or what was in it before shows no more. -/
theorem writes_or (chs : List Change) (c : Column) :
    (∀ x, chs.foldl (fun x ch => (ch.writes c).getD x) x = x) ∨
      ∀ x y, chs.foldl (fun x ch => (ch.writes c).getD x) x =
        chs.foldl (fun x ch => (ch.writes c).getD x) y := by
  induction chs with
  | nil => exact Or.inl fun _ => rfl
  | cons ch chs ih =>
    simp only [List.foldl_cons]
    cases ch.writes c with
    | none => exact ih
    | some w => exact Or.inr fun _ _ => rfl

/-- The changes do the same to a resource and to what was stored of it. -/
theorem runAll_stored {u v : User} (chs : List Change)
    (hstore : ∀ c : Column, c.store (cell v c) = c.store (cell u c)) (hu : ∀ c : Column, c.Valid (cell u c))
    (hv : ∀ c : Column, c.Valid (cell (runAll chs v) c)) (c : Column) :
    c.store (cell (runAll chs u) c) = c.store (cell (runAll chs v) c) ∧
      c.Valid (cell (runAll chs u) c) := by
  have hvalid := hv c
  rw [cell_runAll] at hvalid ⊢
  rw [cell_runAll]
  refine ⟨store_writes chs (hstore c).symm, ?_⟩
  rcases writes_or chs c with hnone | hsame
  · rw [hnone]
    exact hu c
  · rw [hsame _ (cell v c)]
    exact hvalid

theorem split_append (U : Unicode) (registered : Registry) (A B : List Scheduled) :
    splitExtendedOps U registered (A ++ B) =
      ((splitExtendedOps U registered A).1 ++ (splitExtendedOps U registered B).1,
        (splitExtendedOps U registered A).2 ++ (splitExtendedOps U registered B).2) := by
  unfold splitExtendedOps
  by_cases h : registered.rows = []
  · rw [if_pos h, if_pos h, if_pos h, List.map_append, List.append_nil]
  · rw [if_neg h, if_neg h, if_neg h, List.flatMap_append, List.flatMap_append]

theorem patchUser_ok_iff {U : Unicode} {registered : Registry} {existing row : Store.User}
    {baseURL : String} {ops : List Scheduled} :
    patchUser U registered existing baseURL ops = .ok row ↔
      ¬ ((splitExtendedOps U registered ops).1 = [] ∧ (splitExtendedOps U registered ops).2 = []) ∧
      ∃ chs blob, resolveAll U (ops.flatMap (coreSteps U registered)) = .ok chs ∧
        validate (runAll chs (fromStoreUser existing baseURL)) = "" ∧
        applyExtendedOps existing.extendedAttributes (ops.flatMap (extendedSteps U registered)) =
          some blob ∧
        row = { toStoreUser (runAll chs (fromStoreUser existing baseURL)) with
          extendedAttributes := blob } := by
  rw [patchUser_steps]
  by_cases hnone : (splitExtendedOps U registered ops).1 = [] ∧
      (splitExtendedOps U registered ops).2 = []
  · rw [if_pos hnone]
    constructor
    · intro h
      cases h
    · exact fun h => (h.1 hnone).elim
  · rw [if_neg hnone]
    cases hresolve : resolveAll U (ops.flatMap (coreSteps U registered)) with
    | error e =>
      constructor
      · intro h
        cases h
      · rintro ⟨-, chs, blob, hchs, -⟩
        cases hchs
    | ok chs =>
      dsimp only
      rw [finishPatch]
      by_cases hvalid : validate (runAll chs (fromStoreUser existing baseURL)) = ""
      · rw [if_neg (not_not.mpr hvalid)]
        cases hblob : applyExtendedOps existing.extendedAttributes
            (ops.flatMap (extendedSteps U registered)) with
        | none =>
          constructor
          · intro h
            cases h
          · rintro ⟨-, chs', blob, -, -, hb, -⟩
            cases hb
        | some blob =>
          constructor
          · intro h
            cases h
            exact ⟨hnone, chs, blob, rfl, hvalid, rfl, rfl⟩
          · rintro ⟨-, chs', blob', hchs, -, hb, rfl⟩
            cases hchs
            cases hb
            rfl
      · rw [if_pos hvalid]
        constructor
        · intro h
          cases h
        · rintro ⟨-, chs', blob, hchs, hv, -⟩
          cases hchs
          exact (hvalid hv).elim

/-! ### The blob -/

/-- What PostgreSQL promises of `jsonb`: it reads what it has written, and writes it the same; it keeps
what an object holds; and it refuses an object for one of its members only. -/
structure JsonbLaws (pg : Postgres) : Prop where
  rereads : ∀ raw j, pg.jsonb raw = some j → j ≠ "" ∧ pg.jsonb j = some j
  keeps : ∀ m j n, pg.jsonb (marshal m) = some j → readBlob j = some n → m.Alike n
  memberwise : ∃ fine : String × Value → Prop, ∀ m : Map, m.rows ≠ [] →
    ((pg.jsonb (marshal m)).isSome ↔ ∀ e ∈ m.rows, fine e)

/-- The same text, or the texts of objects that hold the same. -/
def SameBlob (pg : Postgres) (x y : Option String) : Prop :=
  x = y ∨ ∃ m n : Map, m.Alike n ∧ pg.jsonb (marshal m) = x ∧ pg.jsonb (marshal n) = y

theorem marshal_ne (m : Map) : marshal m ≠ "" := by
  obtain ⟨c, cs, hw, -, -⟩ := Json.write_head m.json
  intro he
  have hchars := congrArg String.toList he
  rw [marshal, String.toList_ofList, hw] at hchars
  cases hchars

theorem apply_alike {m n : Map} (h : m.Alike n) (o : ExtendedOp) : (o.apply m).Alike (o.apply n) := by
  unfold ExtendedOp.apply
  split_ifs
  · exact h.put _
  · exact h.remove _
  · exact h

theorem applyAll_alike {m n : Map} (h : m.Alike n) (os : List ExtendedOp) :
    (os.foldl ExtendedOp.apply m).Alike (os.foldl ExtendedOp.apply n) := by
  induction os generalizing m n with
  | nil => exact h
  | cons o os ih => exact ih (apply_alike h o)

/-- A member that is there after the operations was there and is left wherever it is, or is put there
wherever they are applied. -/
theorem applyAll_mem (os : List ExtendedOp) {m : Map} {e : String × Value}
    (he : e ∈ (os.foldl ExtendedOp.apply m).rows) :
    e ∈ m.rows ∧ (∀ n : Map, e ∈ n.rows → e ∈ (os.foldl ExtendedOp.apply n).rows) ∨
      ∀ n : Map, e ∈ (os.foldl ExtendedOp.apply n).rows := by
  induction os generalizing m with
  | nil => exact Or.inl ⟨he, fun _ => id⟩
  | cons o os ih =>
    rcases ih he with ⟨hm, hstays⟩ | hput
    · simp only [List.foldl_cons]
      unfold ExtendedOp.apply at hm
      split_ifs at hm with hset hremove
      · have hval : ∀ n : Map, o.apply n = Table.put n (o.name, o.value.getD .null) :=
          fun n => if_pos hset
        rcases Table.mem_put.mp hm with rfl | ⟨hm, hne⟩
        · right
          intro n
          exact hstays _ (by rw [hval]; exact Table.mem_put.mpr (Or.inl rfl))
        · left
          refine ⟨hm, fun n hn => hstays _ ?_⟩
          rw [hval]
          exact Table.mem_put.mpr (Or.inr ⟨hn, hne⟩)
      · have hval : ∀ n : Map, o.apply n = Table.remove n o.name :=
          fun n => (if_neg hset).trans (if_pos hremove)
        obtain ⟨hm, hne⟩ := List.mem_filter.mp hm
        left
        refine ⟨hm, fun n hn => hstays _ ?_⟩
        rw [hval]
        exact List.mem_filter.mpr ⟨hn, hne⟩
      · have hval : ∀ n : Map, o.apply n = n := fun n => (if_neg hset).trans (if_neg hremove)
        left
        refine ⟨hm, fun n hn => hstays _ ?_⟩
        rw [hval]
        exact hn
    · exact Or.inr fun n => hput (o.apply n)

def blobText (m : Map) : String := if m.rows = [] then "" else marshal m

theorem applyExtendedOps_some {raw text : String} {os : List ExtendedOp} (hne : os ≠ []) :
    applyExtendedOps raw os = some text ↔
      ∃ m, readBlob raw = some m ∧ text = blobText (os.foldl ExtendedOp.apply m) := by
  rw [applyExtendedOps, if_neg hne]
  cases readBlob raw with
  | none =>
    constructor
    · intro h
      cases h
    · rintro ⟨m, hm, -⟩
      cases hm
  | some m =>
    constructor
    · intro h
      cases h
      exact ⟨m, rfl, rfl⟩
    · rintro ⟨m', hm, rfl⟩
      cases hm
      rfl

variable {pg : Postgres}

theorem jsonbParam_stored (laws : JsonbLaws pg) {raw : String} {x : Option String}
    (h : jsonbParam pg raw = .ok x) : jsonbParam pg (x.getD "") = .ok x := by
  rw [jsonbParam] at h
  by_cases hraw : raw = ""
  · rw [if_pos hraw] at h
    cases h
    rfl
  · rw [if_neg hraw] at h
    cases hj : pg.jsonb raw with
    | none =>
      rw [hj] at h
      cases h
    | some j =>
      rw [hj] at h
      cases h
      obtain ⟨hne, hfixed⟩ := laws.rereads raw j hj
      rw [Option.getD_some, jsonbParam, if_neg hne, hfixed]

theorem jsonbParam_blob {m : Map} {x : Option String} (h : jsonbParam pg (blobText m) = .ok x) :
    m.rows = [] ∧ x = none ∨ m.rows ≠ [] ∧ ∃ j, pg.jsonb (marshal m) = some j ∧ x = some j := by
  rw [blobText] at h
  by_cases hm : m.rows = []
  · rw [if_pos hm] at h
    cases h
    exact Or.inl ⟨hm, rfl⟩
  · rw [if_neg hm, jsonbParam, if_neg (marshal_ne m)] at h
    cases hj : pg.jsonb (marshal m) with
    | none =>
      rw [hj] at h
      cases h
    | some j =>
      rw [hj] at h
      cases h
      exact Or.inr ⟨hm, j, rfl, rfl⟩

/-- What is read back of a blob is what was written. -/
theorem reread_alike (laws : JsonbLaws pg) {m n : Map} {x : Option String}
    (h : jsonbParam pg (blobText m) = .ok x) (hn : readBlob (x.getD "") = some n) : m.Alike n := by
  rcases jsonbParam_blob h with ⟨hm, rfl⟩ | ⟨-, j, hj, rfl⟩
  · cases hn
    intro k
    rw [Table.find?, hm]
    rfl
  · exact laws.keeps m j n hj hn

theorem blob_batch (laws : JsonbLaws pg) {raw tA tB : String} {x₁ x₂ : Option String}
    {A B : List ExtendedOp} (hraw : ∃ x, jsonbParam pg raw = .ok x ∧ x.getD "" = raw)
    (hA : applyExtendedOps raw A = some tA) (h₁ : jsonbParam pg tA = .ok x₁)
    (hB : applyExtendedOps (x₁.getD "") B = some tB) (h₂ : jsonbParam pg tB = .ok x₂) :
    ∃ text x, applyExtendedOps raw (A ++ B) = some text ∧ jsonbParam pg text = .ok x ∧
      SameBlob pg x₂ x := by
  by_cases hnoA : A = []
  · subst hnoA
    cases hA
    obtain ⟨x, hx, hsame⟩ := hraw
    cases h₁.symm.trans hx
    rw [hsame] at hB
    exact ⟨tB, x₂, hB, h₂, Or.inl rfl⟩
  by_cases hnoB : B = []
  · subst hnoB
    cases hB
    cases (jsonbParam_stored laws h₁).symm.trans h₂
    exact ⟨tA, x₁, by rw [List.append_nil]; exact hA, h₁, Or.inl rfl⟩
  obtain ⟨m, hm, rfl⟩ := (applyExtendedOps_some hnoA).mp hA
  obtain ⟨n, hn, rfl⟩ := (applyExtendedOps_some hnoB).mp hB
  have halike := applyAll_alike (reread_alike laws h₁ hn) B
  have hAB : A ++ B ≠ [] := by simp [hnoA]
  have hbatch : applyExtendedOps raw (A ++ B) =
      some (blobText (B.foldl ExtendedOp.apply (A.foldl ExtendedOp.apply m))) :=
    (applyExtendedOps_some hAB).mpr ⟨m, hm, by rw [List.foldl_append]⟩
  rcases jsonbParam_blob h₂ with ⟨hempty, rfl⟩ | ⟨hrows, j, hj, rfl⟩
  · refine ⟨_, none, hbatch, ?_, Or.inl rfl⟩
    rw [blobText, if_pos (halike.symm.rows_nil hempty)]
    rfl
  · have hrows' : (B.foldl ExtendedOp.apply (A.foldl ExtendedOp.apply m)).rows ≠ [] :=
      fun h => hrows (halike.rows_nil h)
    obtain ⟨fine, hfine⟩ := laws.memberwise
    have hsome : (pg.jsonb (marshal (B.foldl ExtendedOp.apply (A.foldl ExtendedOp.apply m)))).isSome := by
      rw [hfine _ hrows']
      intro e he
      rcases applyAll_mem B he with ⟨hmem, -⟩ | hput
      · -- it was in the object that the first PATCH stored
        rcases jsonbParam_blob h₁ with ⟨hnone, -⟩ | ⟨hsome, i, hi, -⟩
        · rw [hnone] at hmem
          cases hmem
        · exact (hfine _ hsome).mp (by rw [hi]; rfl) e hmem
      · exact (hfine _ hrows).mp (by rw [hj]; rfl) e (hput n)
    obtain ⟨j', hj'⟩ := Option.isSome_iff_exists.mp hsome
    refine ⟨_, some j', hbatch, ?_, Or.inr ⟨_, _, halike.symm, hj, hj'⟩⟩
    rw [blobText, if_neg hrows', jsonbParam, if_neg (marshal_ne _), hj']

/-! ### Two lists of operations -/

theorem cell_runAll_base (chs : List Change) (su : Store.User) (b b' : String) (c : Column) :
    cell (runAll chs (fromStoreUser su b)) c = cell (runAll chs (fromStoreUser su b')) c := by
  rw [cell_runAll, cell_runAll, cell_fromStoreUser, cell_fromStoreUser]

/-- The row between the two passes through the table; what the second PATCH makes of it is what it makes
of the resource that was stored. -/
theorem patchUser_batch (laws : JsonbLaws pg) {U : Unicode} {registered : Registry}
    {existing between su₁ su₂ : Store.User} {base₁ base₂ : String} {A B : List Scheduled}
    {x₁ x₂ : Option String}
    (hraw : ∃ x, jsonbParam pg existing.extendedAttributes = .ok x ∧
      x.getD "" = existing.extendedAttributes)
    (hA : patchUser U registered existing base₁ A = .ok su₁)
    (h₁ : jsonbParam pg su₁.extendedAttributes = .ok x₁)
    (hcols : ∀ c : Column, c.get between = c.get su₁)
    (hblob : between.extendedAttributes = x₁.getD "")
    (hB : patchUser U registered between base₂ B = .ok su₂)
    (h₂ : jsonbParam pg su₂.extendedAttributes = .ok x₂) (base : String) :
    ∃ su x, patchUser U registered existing base (A ++ B) = .ok su ∧
      jsonbParam pg su.extendedAttributes = .ok x ∧ (∀ c : Column, c.get su = c.get su₂) ∧
      SameBlob pg x₂ x := by
  obtain ⟨hsome, chsA, blobA, hchsA, hvalidA, hextA, rfl⟩ := patchUser_ok_iff.mp hA
  obtain ⟨-, chsB, blobB, hchsB, hvalidB, hextB, rfl⟩ := patchUser_ok_iff.mp hB
  obtain ⟨-, hvalidA⟩ := (validate_iff _).mp hvalidA
  obtain ⟨-, hvalidB⟩ := (validate_iff _).mp hvalidB
  rw [hblob] at hextB
  obtain ⟨text, x, htext, hx, hsame⟩ := blob_batch laws hraw hextA h₁ hextB h₂
  have hwritten : Written between := ⟨_, fun c => (hcols c).trans (get_blob c _ blobA)⟩
  have hstored : ∀ c : Column, c.store (cell (fromStoreUser between base₂) c) =
      c.store (cell (runAll chsA (fromStoreUser existing base)) c) := by
    intro c
    rw [store_fromStoreUser hwritten, hcols, cell_runAll_base chsA existing base base₁, get_blob,
      get_toStoreUser]
  have hvalid : ∀ c : Column, c.Valid (cell (runAll chsA (fromStoreUser existing base)) c) := by
    intro c
    rw [cell_runAll_base chsA existing base base₁]
    exact hvalidA c
  have hcolumns := runAll_stored chsB hstored hvalid hvalidB
  have hschemas : userSchema ∈
      (runAll (chsA ++ chsB) (fromStoreUser existing base)).schemas.items := by
    rw [schemas_runAll]
    exact List.mem_cons_self
  refine ⟨_, x, patchUser_ok_iff.mpr ⟨?_, chsA ++ chsB, text, ?_, ?_, ?_, rfl⟩, hx, ?_, hsame⟩
  · rw [split_append]
    rintro ⟨hcore, hext⟩
    exact hsome ⟨(List.append_eq_nil_iff.mp hcore).1, (List.append_eq_nil_iff.mp hext).1⟩
  · rw [List.flatMap_append]
    exact resolveAll_append hchsA hchsB
  · refine (validate_iff _).mpr ⟨hschemas, fun c => ?_⟩
    rw [runAll_append]
    exact (hcolumns c).2
  · rw [List.flatMap_append]
    exact htext
  · intro c
    have hget := get_toStoreUser (runAll (chsA ++ chsB) (fromStoreUser existing base)) c
    have hget₂ := get_toStoreUser (runAll chsB (fromStoreUser between base₂)) c
    have hcolumn := (hcolumns c).1
    rw [← runAll_append] at hcolumn
    exact (get_blob c _ text).trans (hget.trans (hcolumn.trans
      (hget₂.symm.trans (get_blob c _ blobB).symm)))

/-! ### Requests -/

section Requests

variable {supply : Nat → Supply Env DbError} {w : StoreWorld} {db db' : Db} {h : Handler} {r : Request}

theorem serverError_status : serverError.status ≠ 200 := by decide

theorem lookupError_status (e : Store.StoreError) : (lookupError e).status ≠ 200 := by
  cases e with
  | notFound => decide
  | _ => exact serverError_status

theorem updateError_status (e : Store.StoreError) : (updateError e).status ≠ 200 := by
  cases e with
  | notFound => decide
  | duplicateUserName => decide
  | _ => exact serverError_status

theorem receivedPatch_status {resp : Response} (hp : receivedPatch r = .error resp) :
    resp.status ≠ 200 := by
  unfold receivedPatch at hp
  cases hbody : r.body with
  | value v =>
    rw [hbody] at hp
    dsimp only at hp
    cases hread : readPatch v with
    | none =>
      rw [hread] at hp
      cases hp
      decide
    | some p =>
      rw [hread] at hp
      cases hp
  | malformed =>
    rw [hbody] at hp
    cases hp
    decide
  | tooLarge =>
    rw [hbody] at hp
    cases hp
    decide

theorem refusal_status (e : Refusal) : e.response.status ≠ 200 := by
  have hstatus : (400 : Nat) ≠ 200 := by decide
  exact hstatus

/-- The registry is only missing when the database fails. -/
theorem leads_registered_fails :
    (engine pg).Leads supply (h.registered r) (fun _ _ => True) (fun resp _ => resp = serverError) w := by
  unfold Handler.registered
  by_cases hext : h.extended
  · rw [if_pos hext]
    exact leads_bind.mpr (leads_refusedWith.mpr (leads_any.mono (fun _ _ _ => trivial) fun _ _ _ => rfl))
  · rw [if_neg hext]
    trivial

theorem leads_registered_stopped :
    (engine pg).Leads supply (h.registered r) (fun _ _ => True) (fun resp _ => resp.status ≠ 200) w := by
  refine leads_registered_fails.mono (fun _ _ _ => trivial) ?_
  rintro _ _ rfl
  exact serverError_status

/-- Whatever stops a PATCH, it is not answered 200. -/
theorem leads_patch_stopped :
    (engine pg).Leads supply (h.patch r) (fun _ _ => True) (fun resp _ => resp.status ≠ 200) w := by
  refine leads_bind.mpr (leads_ofExcept.mpr ?_)
  cases hdecode : receivedPatch r with
  | error resp => exact receivedPatch_status hdecode
  | ok p =>
    refine leads_bind.mpr (leads_refusedWith.mpr (leads_any.mono ?_ fun e _ _ => lookupError_status e))
    intro existing w₁ _
    refine leads_bind.mpr (leads_registered_stopped.mono ?_ fun _ _ hresp => hresp)
    intro registry w₂ _
    refine leads_bind.mpr (leads_ofExcept.mpr ?_)
    cases hpatch : h.patchedUser r registry existing p with
    | error resp =>
      obtain ⟨e, -, rfl⟩ := checked_error hpatch
      exact refusal_status e
    | ok su =>
      exact leads_bind.mpr (leads_refusedWith.mpr (leads_any.mono (fun _ _ _ => trivial)
        fun e _ _ => updateError_status e))

/-- A PATCH that went through. -/
structure PatchDone (pg : Postgres) (h : Handler) (r : Request) (db : Db) (p : PatchOp)
    (c row : UserRow) (db' : Db) : Prop where
  received : receivedPatch r = .ok p
  found : db.userAt r.tenantID r.id = some c
  stored : ∃ su now ext, patchUser h.unicode (h.registryOf db r.tenantID) (scanUser c) r.baseURL
    (scheduled r.orders p.operations.items) = .ok su ∧
    jsonbParam pg su.extendedAttributes = .ok ext ∧ row = replaceUser now su ext c
  free : userConflict pg db row = none
  directory : SameDirectory { db with users := db.users.put row } db'

theorem patchDone_of_update {p : PatchOp} {c : UserRow} {su : Store.User} {now : Store.Time}
    {ch : Store.Change} {ws : List Store.Write} (hp : receivedPatch r = .ok p)
    (hc : db.userAt r.tenantID r.id = some c)
    (hpatch : h.patchedUser r (h.registryOf db r.tenantID) (scanUser c) p = .ok su)
    (hx : Store.execUpdateUser pg now r.tenantID r.id su db db = .ok (some ch, ws))
    (hlogged : Store.Logged ((engine pg).applyAll db ws) db') :
    ∃ p c row, PatchDone pg h r db p c row db' := by
  obtain ⟨c', ext, hc', hext, hfree, -, rfl⟩ := Store.execUpdateUser_ok.mp hx
  cases hc.symm.trans hc'
  exact ⟨p, c, _, hp, hc, ⟨su, now, ext, checked_ok hpatch, hext, rfl⟩, hfree,
    .of_logged hlogged⟩

theorem patch_done (hs : (serve pg supply (h.mutate r .user .patch) db).1.status = 200) :
    ∃ p c row, PatchDone pg h r db p c row (serve pg supply (h.mutate r .user .patch) db).2 := by
  have hw : (World.start db : StoreWorld).Idle db := ⟨rfl, rfl⟩
  refine leads_serve (Q := fun resp db' => resp.status = 200 → ∃ p c row, PatchDone pg h r db p c row db')
    ?_ hs
  change (engine pg).Leads supply (h.patch r) _ _ _
  have hpatch : (engine pg).Leads supply (h.patch r)
      (fun _ w => ∃ p c row, PatchDone pg h r db p c row w.db) (fun _ _ => True) (World.start db) := by
    refine leads_patch hw ?_ fun _ _ _ _ _ => trivial
    rintro p c su now ch ws db' w' hp hc hpatch hx hlogged ⟨rfl, -⟩
    exact patchDone_of_update hp hc hpatch hx hlogged
  refine (hpatch.and leads_patch_stopped).mono ?_ ?_
  · exact fun _ _ hdone _ => hdone.1
  · exact fun _ _ hstopped hstatus => (hstopped.2 hstatus).elim

theorem patch_goes_through (hq : Quiet supply) {p : PatchOp} {c : UserRow} {su : Store.User}
    {ext : Option String} (hp : receivedPatch r = .ok p) (hc : db.userAt r.tenantID r.id = some c)
    (hpatch : patchUser h.unicode (h.registryOf db r.tenantID) (scanUser c) r.baseURL
      (scheduled r.orders p.operations.items) = .ok su)
    (hext : jsonbParam pg su.extendedAttributes = .ok ext)
    (hfree : ∀ now, userConflict pg db (replaceUser now su ext c) = none) :
    (serve pg supply (h.mutate r .user .patch) db).1.status = 200 := by
  have hw : (World.start db : StoreWorld).Idle db := ⟨rfl, rfl⟩
  have hchecked : h.patchedUser r (h.registryOf db r.tenantID) (scanUser c) p = .ok su := by
    rw [Handler.patchedUser, hpatch]
    rfl
  refine leads_serve (Q := fun resp _ => resp.status = 200) ?_
  change (engine pg).Leads supply (h.patch r) _ _ _
  refine leads_patch hw (fun _ _ _ _ _ _ _ _ _ _ _ _ _ _ => rfl) ?_
  intro resp db' w' hrejected _
  refine (hrejected.refused hq ⟨p, c, su, hp, hc, hchecked, fun now => ?_⟩).elim
  exact ⟨_, _, Store.execUpdateUser_ok.mpr ⟨c, ext, hc, hext, hfree now, rfl, rfl⟩⟩

theorem userAt_put {c row : UserRow} {id tenantID : String} (hc : db.userAt tenantID id = some c)
    (hid : row.id = c.id) (htenant : row.tenantID = c.tenantID) (hdb : db'.users = db.users.put row) :
    db'.userAt tenantID id = some row := by
  obtain ⟨hparse, -, howner⟩ := Store.userAt_eq_some.mp hc
  refine Store.userAt_eq_some.mpr ⟨by rw [hparse, hid], ?_, htenant.trans howner⟩
  rw [hdb, Table.find?_put, if_pos rfl]

theorem getD_parses (laws : JsonbLaws pg) {x : Option String}
    (hx : ∀ j, x = some j → ∃ raw, pg.jsonb raw = some j) : jsonbParam pg (x.getD "") = .ok x := by
  cases x with
  | none => rfl
  | some j =>
    obtain ⟨raw, hraw⟩ := hx j rfl
    obtain ⟨hne, hfixed⟩ := laws.rereads raw j hraw
    rw [Option.getD_some, jsonbParam, if_neg hne, hfixed]

variable {U : Unicode} {T : TimeText} {a b t : Request} {first second whole : Nat → Supply Env DbError}

theorem batch_equals_sequence (laws : JsonbLaws pg) (hreach : Reachable pg U T db)
    (hquiet : Quiet whole) (hids : a.tenantID = t.tenantID ∧ a.id = t.id)
    (hids' : b.tenantID = t.tenantID ∧ b.id = t.id)
    (hbatch : ∀ p q, receivedPatch a = .ok p → receivedPatch b = .ok q →
      ∃ pq, receivedPatch t = .ok pq ∧ scheduled t.orders pq.operations.items =
        scheduled a.orders p.operations.items ++ scheduled b.orders q.operations.items)
    (hfirst : (serve pg first (h.mutate a .user .patch) db).1.status = 200)
    (hsecond : (serve pg second (h.mutate b .user .patch)
      (serve pg first (h.mutate a .user .patch) db).2).1.status = 200) :
    (serve pg whole (h.mutate t .user .patch) db).1.status = 200 ∧
      ∃ two one, (serve pg second (h.mutate b .user .patch)
          (serve pg first (h.mutate a .user .patch) db).2).2.userAt t.tenantID t.id = some two ∧
        (serve pg whole (h.mutate t .user .patch) db).2.userAt t.tenantID t.id = some one ∧
        (∀ c : Column, c.get (scanUser one) = c.get (scanUser two)) ∧
        SameBlob pg two.extendedAttributes one.extendedAttributes := by
  obtain ⟨p, c, row₁, hA⟩ := patch_done hfirst
  obtain ⟨q, c₁, row₂, hB⟩ := patch_done hsecond
  generalize (serve pg first (h.mutate a .user .patch) db).2 = db₁ at *
  generalize (serve pg second (h.mutate b .user .patch) db₁).2 = db₂ at *
  obtain ⟨pq, hpq, hops⟩ := hbatch p q hA.received hB.received
  obtain ⟨su₁, now₁, x₁, hsu₁, hx₁, rfl⟩ := hA.stored
  obtain ⟨su₂, now₂, x₂, hsu₂, hx₂, rfl⟩ := hB.stored
  have hc : db.userAt t.tenantID t.id = some c := by
    rw [← hids.1, ← hids.2]
    exact hA.found
  have hbetween : db₁.userAt t.tenantID t.id = some (replaceUser now₁ su₁ x₁ c) :=
    userAt_put hc rfl rfl hA.directory.1
  have hfound := hB.found
  rw [hids'.1, hids'.2, hbetween] at hfound
  cases hfound
  have hregistry : h.registryOf db₁ b.tenantID = h.registryOf db t.tenantID := by
    rw [Handler.registryOf, Handler.registryOf, Db.attributesOf, Db.attributesOf,
      hA.directory.2.2.2, hids'.1]
  rw [hregistry] at hsu₂
  rw [hids.1] at hsu₁
  have hkept := (reachable_kept hreach).users c
    (Table.find?_mem (Store.userAt_eq_some.mp hc).2.1)
  obtain ⟨su, x, hsu, hx, hcols, hsame⟩ := patchUser_batch laws
    ⟨_, getD_parses laws hkept.blob, rfl⟩ hsu₁ hx₁ (fun c => by cases c <;> rfl) rfl hsu₂ hx₂ t.baseURL
  rw [← hops] at hsu
  have hfree : ∀ now, userConflict pg db (replaceUser now su x c) = none := by
    intro now
    rw [Store.userConflict_none]
    intro y hy hid htenant
    have hname : su.userName = su₂.userName := Option.some.inj (Stored.text.inj (hcols .userName))
    have hexternal : su.externalID = su₂.externalID := Stored.text.inj (hcols .externalID)
    have hy₁ : y ∈ db₁.users.rows := by
      rw [hA.directory.1]
      exact Table.mem_put.mpr (Or.inr ⟨hy, hid⟩)
    obtain ⟨happart, hexternals⟩ := Store.userConflict_none.mp hB.free y hy₁ hid htenant
    refine ⟨?_, ?_⟩
    · change pg.lower y.userName ≠ pg.lower su.userName
      rw [hname]
      exact happart
    · change su.externalID.isSome → y.externalID ≠ su.externalID
      rw [hexternal]
      exact hexternals
  have hgoes := patch_goes_through hquiet hpq hc hsu hx hfree
  obtain ⟨pq', c', row, hAB⟩ := patch_done hgoes
  cases hpq.symm.trans hAB.received
  cases hc.symm.trans hAB.found
  obtain ⟨su', now, x', hsu', hx', rfl⟩ := hAB.stored
  cases hsu.symm.trans hsu'
  cases hx.symm.trans hx'
  have htwo : db₂.userAt t.tenantID t.id =
      some (replaceUser now₂ su₂ x₂ (replaceUser now₁ su₁ x₁ c)) :=
    userAt_put hbetween rfl rfl hB.directory.1
  have hone : (serve pg whole (h.mutate t .user .patch) db).2.userAt t.tenantID t.id =
      some (replaceUser now su x c) := userAt_put hc rfl rfl hAB.directory.1
  refine ⟨hgoes, _, _, htwo, hone, fun col => ?_, hsame⟩
  have hcol := hcols col
  cases col <;> exact hcol

end Requests

/-- No blob is written where no attribute is registered. -/
def blobless : Postgres := ⟨id, fun _ => none⟩

theorem blobless_laws : JsonbLaws blobless := by
  refine ⟨fun _ _ h => (nomatch h), fun _ _ _ h => (nomatch h), fun _ => False, ?_⟩
  intro m hm
  obtain ⟨e, he⟩ := List.exists_mem_of_ne_nil _ hm
  exact ⟨fun h => (nomatch h), fun h => (h e he).elim⟩

def oneAnn : Db :=
  (serve blobless Store.annSupply (plainHandler.mutate missingUser .user .post) .empty).2

def replacing (path : String) (value : Value) : Value :=
  .obj [(quote "op", string "replace"), (quote "path", string path), (quote "value", value)]

def patching (ops : List Value) : Request :=
  requestFor Store.someUuid.text (.obj [(quote "Operations", .arr ops)])

def switchOff : Request := patching [replacing "active" (.bool false)]

def renamed : Request := patching [replacing "userName" (string " paul")]

def switchOffRenamed : Request :=
  patching [replacing "active" (.bool false), replacing "userName" (string " paul")]

theorem oneAnn_reachable : Reachable blobless .plain noTimes oneAnn :=
  .step .empty (.request ⟨false⟩ false missingUser .user .post Store.annSupply .empty)

theorem batch_equals_sequence_ann :
    (serve blobless paulSupply (plainHandler.mutate switchOffRenamed .user .patch) oneAnn).1.status =
      200 := by
  have hquiet : Quiet paulSupply := fun _ => rfl
  have hfirst : (serve blobless paulSupply (plainHandler.mutate switchOff .user .patch) oneAnn).1.status =
      200 := by rfl
  have hsecond : (serve blobless paulSupply (plainHandler.mutate renamed .user .patch)
      (serve blobless paulSupply (plainHandler.mutate switchOff .user .patch) oneAnn).2).1.status =
      200 := by rfl
  have hbatch : ∀ p q, receivedPatch switchOff = .ok p → receivedPatch renamed = .ok q →
      ∃ pq, receivedPatch switchOffRenamed = .ok pq ∧
        scheduled switchOffRenamed.orders pq.operations.items =
          scheduled switchOff.orders p.operations.items ++ scheduled renamed.orders q.operations.items := by
    intro p q hp hq
    cases hp
    cases hq
    exact ⟨_, rfl, rfl⟩
  exact (batch_equals_sequence (h := plainHandler) (a := switchOff) (b := renamed)
    (t := switchOffRenamed) blobless_laws oneAnn_reachable hquiet ⟨rfl, rfl⟩ ⟨rfl, rfl⟩ hbatch hfirst hsecond).1

end Scimage.Scim
