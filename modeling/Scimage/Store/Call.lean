import Scimage.Store.Statement

/-! Calls of the store: what they ask of the pool and of their transaction, and how they fail. -/
namespace Scimage

/-- `changeEvents` is on when a dispatcher drains the outbox. -/
structure Store where
  changeEvents : Bool

namespace Store

open Txn

/-- The sentinel errors of the store; `db` is any other error, handed on to the caller. -/
inductive StoreError where
  | notFound
  | duplicateUserName
  | groupNotFound
  | duplicateGroupName
  | invalidMember
  | duplicateAttribute
  | reservedAttribute
  | negativePage
  | db (e : DbError)
  deriving DecidableEq

abbrev Call := ExceptT StoreError (Prog Stmt.Rows DbError)

def effect (e : Effect Stmt) : Call (e.Answer Stmt.Rows DbError) :=
  ExceptT.mk (.call e fun a => .done (.ok a))

/-- `querier`: a connection of the pool, or the call's transaction. -/
inductive Querier where
  | pool | tx

/-- Runs a statement and hands its error to the caller. -/
def Querier.ask (q : Querier) (s : Stmt) : Call (Except DbError s.Rows) :=
  match q with
  | .pool => effect (.pool s)
  | .tx => effect (.tx s)

/-- Passes an unexpected error on. -/
def orFail : Except DbError α → Call α
  | .ok a => pure a
  | .error e => throw (.db e)

def Querier.exec (q : Querier) (s : Stmt) : Call s.Rows := q.ask s >>= orFail

def begin : Call Unit := effect .begin >>= orFail

def commit : Call Unit := effect .commit >>= orFail

def processClock : Call Time := effect .now

/-- Whatever `body` returns, the deferred `tx.Rollback` runs last. -/
def deferRollback (body : Call α) : Call α :=
  ExceptT.mk do
    let r ← body.run
    Prog.perform .rollback
    pure r

def inTx (body : Call α) : Call α := do
  begin
  deferRollback body

/-- Runs a helper and hands its error to the caller. -/
def attempt (c : Call α) : Call (Except StoreError α) :=
  ExceptT.mk (c.run >>= fun r => pure (.ok r))

/-- `Scan` of a single row. -/
def scanRow : Except DbError (Option α) → Except DbError α
  | .ok (some a) => .ok a
  | .ok none => .error .noRows
  | .error e => .error e

def isMissingRow (e : DbError) : Bool :=
  match e with
  | .noRows => true
  | .pg e => e.code == "22P02"
  | .lost => false

def isInvalidArrayElement (e : DbError) : Bool :=
  match e with
  | .pg e => e.code == "22P02"
  | _ => false

def isUniqueViolationOn (e : DbError) (constraint : String) : Bool :=
  match e with
  | .pg e => e.code == "23505" && e.constraintName == constraint
  | _ => false

def isUniqueViolation (e : DbError) : Bool := isUniqueViolationOn e uniqueUserNameIndex

/-! ### Audit log and outbox -/

def insertAudit (q : Querier) (rec : AuditRecord) (resource : Resource) (action : Action)
    (targetID : String) (result : Outcome) (detail : String) (before after : Option Image) :
    Call Unit :=
  q.exec (.insertAudit rec resource action targetID result detail before after)

/-- Runs on a connection of the pool; its failure is logged and swallowed. -/
def auditRefusal (rec : AuditRecord) (resource : Resource) (action : Action)
    (targetID detail : String) : Call Unit := do
  let _ ← Querier.pool.ask (.insertAudit rec resource action targetID .denied detail none none)

def insertAdminAudit (q : Querier) (tenantID actor : String) (action : AdminAction)
    (targetID detail : String) : Call Unit :=
  q.exec (.insertAdminAudit tenantID actor action targetID detail)

/-- It is the transition of `active` that makes a deactivation, not the resulting state. -/
def changeEventType (before : Option User) (after : User) : EventType :=
  match before with
  | some b => if b.active && !after.active then .userDeactivated else .userReplaced
  | none => .userReplaced

def enqueueChange (s : Store) (q : Querier) (tenantID : String) (eventType : EventType)
    (targetID : String) (before : Option User) (after : User) : Call Unit :=
  if !s.changeEvents then pure ()
  else
    q.exec (.insertDelivery tenantID eventType targetID
      (.user ⟨eventType, after.updatedAt, targetID, before, after⟩))

def enqueueGroupChange (s : Store) (q : Querier) (tenantID : String)
    (eventType : EventType) (targetID : String) (before after : Option Group) : Call Unit :=
  if !s.changeEvents then pure ()
  else do
    -- A delete leaves no row to take the time from.
    let occurred ← processClock
    let occurred := (after.map Group.updatedAt).getD occurred
    q.exec (.insertDelivery tenantID eventType targetID
      (.group ⟨eventType, occurred, targetID, before, after⟩))

/-! ### What a call ends in -/

variable {D : Discipline Stmt.Rows}

/-- `wp` with one postcondition for the result and one for the error. -/
def Ends (D : Discipline Stmt.Rows) (c : Call α) (ok : α → Stage Stmt.Rows → Prop)
    (err : StoreError → Stage Stmt.Rows → Prop) (st : Stage Stmt.Rows) : Prop :=
  wp D c.run (fun r => match r with | .ok a => ok a | .error e => err e) st

variable {ok : α → Stage Stmt.Rows → Prop} {err : StoreError → Stage Stmt.Rows → Prop}
  {st : Stage Stmt.Rows}

theorem Ends.wp {c : Call α} {Q : Except StoreError α → Stage Stmt.Rows → Prop}
    (h : Ends D c (fun a => Q (.ok a)) (fun e => Q (.error e)) st) : wp D c.run Q st := by
  refine wp_mono ?_ h
  rintro (e | a) st hq <;> exact hq

@[simp] theorem ends_pure (a : α) : Ends D (pure a) ok err st ↔ ok a st := Iff.rfl

@[simp] theorem ends_throw (e : StoreError) :
    Ends D (throw e : Call α) ok err st ↔ err e st := Iff.rfl

@[simp] theorem ends_bind {c : Call β} {f : β → Call α} :
    Ends D (c >>= f) ok err st ↔ Ends D c (fun b => Ends D (f b) ok err) err st := by
  unfold Ends
  rw [ExceptT.run_bind, wp_bind]
  constructor <;> intro h <;> refine wp_mono ?_ h <;> rintro (e | a) st hq <;> exact hq

theorem Ends.mono {c : Call α} {ok' : α → Stage Stmt.Rows → Prop}
    {err' : StoreError → Stage Stmt.Rows → Prop} (hok : ∀ a st, ok a st → ok' a st)
    (herr : ∀ e st, err e st → err' e st) (h : Ends D c ok err st) : Ends D c ok' err' st := by
  refine wp_mono ?_ h
  rintro (e | a) st hq
  · exact herr e st hq
  · exact hok a st hq

@[simp] theorem ends_orFail_ok (a : α) : Ends D (orFail (.ok a)) ok err st ↔ ok a st := Iff.rfl

@[simp] theorem ends_orFail_error (e : DbError) :
    Ends D (orFail (.error e)) ok err st ↔ err (.db e) st := Iff.rfl

theorem ends_effect {e : Effect Stmt} {ok : e.Answer Stmt.Rows DbError → Stage Stmt.Rows → Prop} :
    Ends D (effect e) ok err st ↔ wp D (.call e .done) ok st := by
  cases e <;> simp [Ends, effect, wp]

theorem ends_effect_bind {e : Effect Stmt} {f : e.Answer Stmt.Rows DbError → Call α} :
    Ends D (effect e >>= f) ok err st ↔ wp D (.call e .done) (fun b => Ends D (f b) ok err) st :=
  Iff.trans ends_bind ends_effect

@[simp] theorem ends_begin {ok : Unit → Stage Stmt.Rows → Prop} :
    Ends D begin ok err .idle ↔ ok () (.opened []) ∧ ∀ e, err (.db e) .idle := by
  refine Iff.trans ends_effect_bind ?_
  simp [wp]

@[simp] theorem ends_commit {ok : Unit → Stage Stmt.Rows → Prop} {h : List (Entry Stmt.Rows)} :
    Ends D commit ok err (.opened h) ↔
      D.commits h ∧ ok () (.committed h) ∧ ∀ e, err (.db e) .failed := by
  refine Iff.trans ends_effect_bind ?_
  simp [wp]

@[simp] theorem ends_processClock {ok : Time → Stage Stmt.Rows → Prop} :
    Ends D processClock ok err st ↔ ∀ t, ok t st :=
  ends_effect

@[simp] theorem ends_tx_ask {s : Stmt} {ok : Except DbError s.Rows → Stage Stmt.Rows → Prop}
    {h : List (Entry Stmt.Rows)} : Ends D (Querier.tx.ask s) ok err (.opened h) ↔
      (∀ r, ok (.ok r) (.opened (h ++ [⟨s, r⟩]))) ∧ ∀ e, ok (.error e) .failed := by
  refine Iff.trans ends_effect ?_
  simp [wp]

@[simp] theorem ends_tx_exec {s : Stmt} {ok : s.Rows → Stage Stmt.Rows → Prop}
    {h : List (Entry Stmt.Rows)} : Ends D (Querier.tx.exec s) ok err (.opened h) ↔
      (∀ r, ok r (.opened (h ++ [⟨s, r⟩]))) ∧ ∀ e, err (.db e) .failed := by
  simp [Querier.exec]

@[simp] theorem ends_deferRollback {body : Call α} : Ends D (deferRollback body) ok err st ↔
    Ends D body (fun a st => ok a st.rollback) (fun e st => err e st.rollback) st := by
  unfold Ends deferRollback
  simp only [ExceptT.run_mk, wp_bind]
  constructor <;> intro h <;> refine wp_mono ?_ h <;> rintro (e | a) st hq <;> exact hq

@[simp] theorem ends_inTx {body : Call α} : Ends D (inTx body) ok err .idle ↔
    Ends D body (fun a st => ok a st.rollback) (fun e st => err e st.rollback) (.opened []) ∧
      ∀ e, err (.db e) .idle := by
  simp [inTx]

@[simp] theorem ends_attempt {c : Call β} {ok : Except StoreError β → Stage Stmt.Rows → Prop} :
    Ends D (attempt c) ok err st ↔
      Ends D c (fun b => ok (.ok b)) (fun e => ok (.error e)) st := by
  unfold Ends attempt
  simp only [ExceptT.run_mk, wp_bind]
  constructor <;> intro h <;> refine wp_mono ?_ h <;> rintro (e | a) st hq <;> exact hq

/-! ### Mutations -/

def Denied : Stmt → Prop
  | .insertAudit _ _ _ _ .denied _ none none => True
  | _ => False

/-- A mutation commits only what `P` allows and runs nothing on a connection of its own but
the note of its refusal. -/
abbrev mutations (P : List (Entry Stmt.Rows) → Prop) : Discipline Stmt.Rows :=
  ⟨P, fun _ => False, Denied⟩

/-- A call returns a result exactly when it has committed. -/
def Settled (r : Except StoreError α) (st : Stage Stmt.Rows) : Prop :=
  match r with
  | .ok _ => ∃ h, st = .committed h
  | .error _ => st = .idle ∨ st = .failed ∨ st = .refused

variable {P : List (Entry Stmt.Rows) → Prop}

@[simp] theorem ends_auditRefusal_failed {rec : AuditRecord} {resource : Resource}
    {action : Action} {targetID detail : String} {ok : Unit → Stage Stmt.Rows → Prop} :
    Ends (mutations P) (auditRefusal rec resource action targetID detail) ok err .failed ↔
      ok () .refused := by
  refine Iff.trans ends_effect_bind ?_
  simp [wp, Denied]

@[simp] theorem ends_auditRefusal_opened {rec : AuditRecord} {resource : Resource}
    {action : Action} {targetID detail : String} {ok : Unit → Stage Stmt.Rows → Prop}
    {h : List (Entry Stmt.Rows)} :
    Ends (mutations P) (auditRefusal rec resource action targetID detail) ok err (.opened h) ↔
      ok () .refused := by
  refine Iff.trans ends_effect_bind ?_
  simp [wp, Denied]

/-- The delivery of a change, with change events on. -/
def queued (s : Store) (tenantID : String) (eventType : EventType) (id : String)
    (payload : Payload) : List (Entry Stmt.Rows) :=
  if s.changeEvents then [⟨.insertDelivery tenantID eventType id payload, ()⟩] else []

@[simp] theorem ends_insertAudit {rec : AuditRecord} {resource : Resource} {action : Action}
    {id : String} {result : Outcome} {detail : String} {before after : Option Image}
    {ok : Unit → Stage Stmt.Rows → Prop} {h : List (Entry Stmt.Rows)} :
    Ends D (insertAudit .tx rec resource action id result detail before after) ok err
      (.opened h) ↔
      ok () (.opened (h ++ [⟨.insertAudit rec resource action id result detail before after, ()⟩])) ∧
        ∀ e, err (.db e) .failed := by
  refine Iff.trans ends_tx_exec ?_
  exact and_congr_left fun _ => ⟨fun hr => hr (), fun hr _ => hr⟩

theorem ends_insertDelivery {tenantID : String} {eventType : EventType} {id : String}
    {payload : Payload} {ok : Unit → Stage Stmt.Rows → Prop} {h : List (Entry Stmt.Rows)} :
    Ends D (Querier.tx.exec (.insertDelivery tenantID eventType id payload)) ok err (.opened h) ↔
      ok () (.opened (h ++ [⟨.insertDelivery tenantID eventType id payload, ()⟩])) ∧
        ∀ e, err (.db e) .failed := by
  refine Iff.trans ends_tx_exec ?_
  exact and_congr_left fun _ => ⟨fun hr => hr (), fun hr _ => hr⟩

theorem ends_enqueueChange {s : Store} {tenantID : String} {eventType : EventType} {id : String}
    {before : Option User} {after : User} {ok : Unit → Stage Stmt.Rows → Prop}
    {h : List (Entry Stmt.Rows)}
    (hok : ok () (.opened (h ++ s.queued tenantID eventType id
      (.user ⟨eventType, after.updatedAt, id, before, after⟩))))
    (herr : ∀ e, err (.db e) .failed) :
    Ends D (s.enqueueChange .tx tenantID eventType id before after) ok err (.opened h) := by
  cases hs : s.changeEvents with
  | false => simpa [enqueueChange, hs, queued] using hok
  | true =>
    simp only [queued, hs, if_true] at hok
    simpa [enqueueChange, hs] using Iff.mpr ends_insertDelivery ⟨hok, herr⟩

theorem ends_enqueueGroupChange {s : Store} {tenantID : String} {eventType : EventType}
    {id : String} {before after : Option Group} {ok : Unit → Stage Stmt.Rows → Prop}
    {h : List (Entry Stmt.Rows)}
    (hok : ∀ t, ok () (.opened (h ++ s.queued tenantID eventType id
      (.group ⟨eventType, (after.map Group.updatedAt).getD t, id, before, after⟩))))
    (herr : ∀ e, err (.db e) .failed) :
    Ends D (s.enqueueGroupChange .tx tenantID eventType id before after) ok err (.opened h) := by
  cases hs : s.changeEvents with
  | false => simpa [enqueueGroupChange, hs, queued] using hok 0
  | true =>
    simp only [queued, hs, if_true] at hok
    simpa [enqueueGroupChange, hs] using fun t => Iff.mpr ends_insertDelivery ⟨hok t, herr⟩

/-- The audit entry of a successful mutation, then its delivery. -/
def recorded (s : Store) (rec : AuditRecord) (tenantID : String) (resource : Resource)
    (action : Action) (id : String) (before after : Option Image) (eventType : EventType)
    (payload : Payload) : List (Entry Stmt.Rows) :=
  ⟨.insertAudit rec resource action id .success "" before after, ()⟩ ::
    s.queued tenantID eventType id payload

/-- The end that the mutations of users share. -/
theorem ends_recorded_user {s : Store} {rec : AuditRecord} {tenantID id : String}
    {action : Action} {eventType : EventType} {before : Option User} {after : User} {a : α}
    {h : List (Entry Stmt.Rows)}
    (hP : P (h ++ s.recorded rec tenantID .user action id (before.map .user) (some (.user after))
      eventType (.user ⟨eventType, after.updatedAt, id, before, after⟩))) :
    Ends (mutations P) (do
        insertAudit .tx rec .user action id .success "" (before.map .user) (some (.user after))
        s.enqueueChange .tx tenantID eventType id before after
        commit
        return a)
      (fun a st => Settled (.ok a) st.rollback)
      (fun e st => Settled (.error e : Except StoreError α) st.rollback) (.opened h) := by
  simp only [ends_bind, ends_insertAudit]
  refine ⟨ends_enqueueChange ?_ (by simp [Settled]), by simp [Settled]⟩
  simpa [Settled, recorded] using hP

/-- The end that the mutations of groups share. -/
theorem ends_recorded_group {s : Store} {rec : AuditRecord} {tenantID id : String}
    {action : Action} {eventType : EventType} {before after : Option Group} {a : α}
    {h : List (Entry Stmt.Rows)}
    (hP : ∀ t, P (h ++ s.recorded rec tenantID .group action id (before.map .group)
      (after.map .group) eventType
      (.group ⟨eventType, (after.map Group.updatedAt).getD t, id, before, after⟩))) :
    Ends (mutations P) (do
        insertAudit .tx rec .group action id .success "" (before.map .group) (after.map .group)
        s.enqueueGroupChange .tx tenantID eventType id before after
        commit
        return a)
      (fun a st => Settled (.ok a) st.rollback)
      (fun e st => Settled (.error e : Except StoreError α) st.rollback) (.opened h) := by
  simp only [ends_bind, ends_insertAudit]
  refine ⟨ends_enqueueGroupChange ?_ (by simp [Settled]), by simp [Settled]⟩
  intro t
  simpa [Settled, recorded] using hP t

end Store
end Scimage
