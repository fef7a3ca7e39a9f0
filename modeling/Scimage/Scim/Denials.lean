import Scimage.Scim.Serve
import Scimage.Store.Consistency

/-! Refused requests and the entries they leave in the audit log. -/
namespace Scimage.Scim

open Txn Engine
open Store (engine Db Env DbError StoreWorld Postgres Resource Uuid Refused Writable)
open Json (Value quote)

variable {pg : Postgres} {supply : Nat → Supply Env DbError} {db : Db} {h : Handler} {r : Request}
  {resource : Resource} {m : Method}

/-- The target of a request exists in its tenant. -/
def Found (db : Db) (r : Request) : Resource → Prop
  | .user => db.userAt r.tenantID r.id ≠ none
  | .group => db.groupAt r.tenantID r.id ≠ none

theorem found_parses (h : Found db r resource) : (Uuid.parse r.id).isSome := by
  cases hk : Uuid.parse r.id with
  | some k => rfl
  | none => cases resource <;> simp [Found, Db.userAt, Db.groupAt, hk] at h

/-- A request is not denied, or it is rejected; a PATCH has looked for its target. -/
def Answered (supply : Nat → Supply Env DbError) (db : Db) (r : Request) (resource : Resource)
    (m : Method) (resp : Response) (db' : Db) : Prop :=
  ¬ Denies resource resp ∨ ∃ accepts found, (m = .patch → (found ↔ Found db r resource)) ∧
    Rejected supply accepts found r.caller resource m r.id db resp db'

theorem ok_not_denies {resource : Resource} {status : Nat} {location : String} {body : Body}
    (h : status < 400) : ¬ Denies resource ⟨status, location, body⟩ := by
  rintro (h404 | h409 | ⟨-, he⟩)
  · have hstatus : status = 404 := h404
    omega
  · have hstatus : status = 409 := h409
    omega
  · have hstatus : status = 400 := congrArg Response.status he
    omega

theorem leads_mutate (hw : World.Idle w db) :
    (engine pg).Leads supply (h.mutate r resource m)
      (fun resp w => Answered supply db r resource m resp w.db)
      (fun resp w => Answered supply db r resource m resp w.db) w := by
  have hrejected : ∀ {accepts found : Prop} (resp : Response) (db' : Db) (w' : StoreWorld),
      (m = .patch → (found ↔ Found db r resource)) →
      Rejected supply accepts found r.caller resource m r.id db resp db' → w'.Idle db' →
      Answered supply db r resource m resp w'.db := by
    intro accepts found resp db' w' hfound hrej hidle
    rw [hidle.1]
    exact Or.inr ⟨accepts, found, hfound, hrej⟩
  cases resource with
  | user =>
    cases m with
    | post =>
      refine leads_create hw ?_ fun resp db' w' => hrejected resp db' w' (fun hm => nomatch hm)
      intros
      exact Or.inl (ok_not_denies (by decide))
    | put =>
      refine leads_replace hw ?_ fun resp db' w' => hrejected resp db' w' (fun hm => nomatch hm)
      intros
      exact Or.inl (ok_not_denies (by decide))
    | patch =>
      refine leads_patch hw ?_ fun resp db' w' => hrejected resp db' w' (fun _ => Iff.rfl)
      intros
      exact Or.inl (ok_not_denies (by decide))
    | delete =>
      refine leads_deactivate hw ?_ fun resp db' w' => hrejected resp db' w' (fun hm => nomatch hm)
      intros
      exact Or.inl (ok_not_denies (by decide))
  | group =>
    cases m with
    | post =>
      refine leads_createGroup hw ?_ fun resp db' w' => hrejected resp db' w' (fun hm => nomatch hm)
      intros
      exact Or.inl (ok_not_denies (by decide))
    | put =>
      refine leads_replaceGroup hw ?_ fun resp db' w' => hrejected resp db' w' (fun hm => nomatch hm)
      intros
      exact Or.inl (ok_not_denies (by decide))
    | patch =>
      refine leads_patchGroup hw ?_ fun resp db' w' => hrejected resp db' w' (fun _ => Iff.rfl)
      intros
      exact Or.inl (ok_not_denies (by decide))
    | delete =>
      refine leads_deleteGroup hw ?_ fun resp db' w' => hrejected resp db' w' (fun hm => nomatch hm)
      intros
      exact Or.inl (ok_not_denies (by decide))

theorem serve_answered (pg : Postgres) (supply : Nat → Supply Env DbError) (h : Handler) (r : Request)
    (resource : Resource) (m : Method) (db : Db) : Answered supply db r resource m
      (serve pg supply (h.mutate r resource m) db).1 (serve pg supply (h.mutate r resource m) db).2 :=
  leads_serve (leads_mutate ⟨rfl, rfl⟩)

theorem refused_ne {rec : Store.AuditRecord} {action : Store.Action} {db' : Db}
    (h : Refused rec resource action db db') : db' ≠ db := by
  obtain ⟨now, serial, target, detail, rfl⟩ := h
  intro he
  have hlen := congrArg (fun d : Db => d.auditLog.length) he
  simp at hlen

theorem writable_target (h : Writable (m.target r.id)) (hpatch : m = .patch → Found db r resource) :
    m = .post ∨ Found db r resource ∨ m ≠ .patch ∧ Writable r.id := by
  cases m with
  | post => exact Or.inl rfl
  | put => exact Or.inr (Or.inr ⟨by decide, h⟩)
  | patch => exact Or.inr (Or.inl (hpatch rfl))
  | delete => exact Or.inr (Or.inr ⟨by decide, h⟩)

theorem not_writable_target (h : ¬ Writable (m.target r.id)) :
    ¬ (m = .post ∨ Found db r resource ∨ m ≠ .patch ∧ Writable r.id) := by
  have hpost : m ≠ .post := by
    rintro rfl
    exact h (Or.inl rfl)
  have hid : m.target r.id = r.id := by
    cases m with
    | post => exact (hpost rfl).elim
    | _ => rfl
  rw [hid] at h
  rintro (hm | hfound | ⟨-, hw⟩)
  · exact hpost hm
  · exact h (Or.inr (found_parses hfound))
  · exact h hw

/-- A request that is denied leaves its entry, unless it is a PATCH whose target does not exist,
or the id of its target is no UUID. -/
theorem denial_recorded_iff (pg : Postgres) {supply : Nat → Supply Env DbError} (hq : Quiet supply)
    (h : Handler) (r : Request) (resource : Resource) (m : Method) (db : Db)
    (hdeny : Denies resource (serve pg supply (h.mutate r resource m) db).1) :
    Refused r.caller resource (m.action resource) db
        (serve pg supply (h.mutate r resource m) db).2 ↔
      m = .post ∨ Found db r resource ∨ m ≠ .patch ∧ Writable r.id := by
  rcases serve_answered pg supply h r resource m db with hno | ⟨accepts, found, hfound, hrej⟩
  · exact (hno hdeny).elim
  · rcases hrej.noted hq hdeny with ⟨hpatch, hmissing, hsame⟩ | ⟨hpatch, hnoted⟩
    · constructor
      · intro href
        exact (refused_ne href hsame).elim
      · rintro (hpost | hex | ⟨hne, -⟩)
        · rw [hpatch] at hpost
          cases hpost
        · exact (hmissing ((hfound hpatch).mpr hex)).elim
        · exact (hne hpatch).elim
    · rcases hnoted with ⟨hwrite, href⟩ | ⟨hwrite, hsame⟩
      · exact iff_of_true href (writable_target hwrite fun hm => (hfound hm).mp (hpatch hm))
      · exact iff_of_false (fun href => refused_ne href hsame) (not_writable_target hwrite)

/-! ### A PATCH and a PUT of a user that does not exist -/

def noTimes : TimeText := ⟨fun _ => "", fun _ => some 0⟩

def plainHandler : Handler := ⟨.plain, noTimes, ⟨false⟩, false⟩

def sameOrders : Orders := ⟨fun _ => 0, fun _ _ => 0, fun _ _ => 0, fun _ => 0⟩

def requestFor (id : String) (body : Value) : Request :=
  ⟨"tenant", id, "https://host", "", ⟨"key", "", "tenant"⟩, .value body, sameOrders⟩

def missingUser : Request := requestFor Store.someUuid.text
  (.obj [(quote "schemas", .arr [string userSchema]), (quote "userName", string "ann")])

theorem missingUser_recorded : Refused missingUser.caller .user .replace .empty
    (serve Store.plainText Store.annSupply (plainHandler.mutate missingUser .user .put) .empty).2 :=
  (denial_recorded_iff Store.plainText (fun _ => rfl) plainHandler missingUser .user .put .empty
    (Or.inl (by rfl))).mpr (Or.inr (Or.inr ⟨by decide, Or.inr (by rfl)⟩))

def inactivePatch : Value :=
  .obj [(quote "Operations", .arr [.obj [(quote "op", string "replace"),
    (quote "path", string "active"), (quote "value", .bool false)]])]

/-- The PATCH of a user that does not exist is answered 404 and leaves no entry. -/
theorem missing_patch_unrecorded :
    let answer := serve Store.plainText Store.annSupply
      (plainHandler.mutate (requestFor Store.someUuid.text inactivePatch) .user .patch) .empty
    answer.1.status = 404 ∧ ¬ Refused ⟨"key", "", "tenant"⟩ .user .replace .empty answer.2 := by
  refine ⟨by rfl, ?_⟩
  intro href
  exact refused_ne href (by rfl)

end Scimage.Scim
