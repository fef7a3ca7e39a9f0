import Scimage.Store.Admin
import Scimage.Store.Mutation
import Scimage.Lib.Decimal
import Scimage.Lib.Focus
import Scimage.Lib.ReadCommitted
import Scimage.Lib.Sequential

/-! Operators' calls interleaved under READ COMMITTED, and the admin trail they leave. -/
namespace Scimage.Store

open Txn Engine Relational

inductive AdminCall where
  | issueToken (keyID secret tenantID label createdBy : String) (expiresAt : Option Time)
  | revokeToken (keyID actor : String)
  | issueConsoleToken (keyID secret label createdBy : String) (expiresAt : Option Time)
  | revokeConsoleToken (keyID actor : String)
  | registerAttribute (tenantID name typ actor : String)
  | unregisterAttribute (tenantID name actor : String)
  | replayDeadLetter (id : Nat) (actor : String)

def AdminCall.call (sha256 : String → List UInt8) : AdminCall → Call Unit
  | .issueToken keyID secret tenantID label createdBy expiresAt => do
    let _ ← Store.issueToken sha256 keyID secret tenantID label createdBy expiresAt
  | .revokeToken keyID actor => Store.revokeToken keyID actor
  | .issueConsoleToken keyID secret label createdBy expiresAt => do
    let _ ← Store.issueConsoleToken sha256 keyID secret label createdBy expiresAt
  | .revokeConsoleToken keyID actor => Store.revokeConsoleToken keyID actor
  | .registerAttribute tenantID name typ actor => do
    let _ ← Store.registerAttribute tenantID name typ actor
  | .unregisterAttribute tenantID name actor => Store.unregisterAttribute tenantID name actor
  | .replayDeadLetter id actor => Store.replayDeadLetter id actor

/-- Each thread runs one call. -/
def adminProgs {ι : Type} (sha256 : String → List UInt8) (calls : ι → AdminCall) (i : ι) :
    Prog Stmt.Rows DbError (Except StoreError Unit) :=
  ((calls i).call sha256).run

/-! ### What the calls commit -/

/-- A change with the entry it is paired with. -/
abbrev noted (s : Stmt) (x : s.Rows) (tenantID actor : String) (action : AdminAction)
    (targetID detail : String) : List (Entry Stmt.Rows) :=
  [⟨s, x⟩, ⟨.insertAdminAudit tenantID actor action targetID detail, ()⟩]

inductive Operated : List (Entry Stmt.Rows) → Prop where
  | issueToken (r t tenantID actor label) :
    Operated (noted (.insertToken r) t tenantID actor .tokenIssue r.keyID label)
  | revokeToken (keyID tenantID actor) :
    Operated (noted (.revokeToken keyID) (some tenantID) tenantID actor .tokenRevoke keyID "")
  | issueConsoleToken (r t actor label) :
    Operated (noted (.insertConsoleToken r) t "" actor .consoleTokenIssue r.keyID label)
  | revokeConsoleToken (keyID k actor) :
    Operated (noted (.revokeConsoleToken keyID) (some k) "" actor .consoleTokenRevoke keyID "")
  | registerAttribute (tenantID name typ actor a) :
    Operated (noted (.insertAttribute tenantID name typ actor) a tenantID actor
      .attributeRegister name typ)
  | unregisterAttribute (tenantID name n actor) : n ≠ 0 →
    Operated (noted (.deleteAttribute tenantID name) n tenantID actor .attributeUnregister name "")
  | replayDeadLetter (id tenantID actor) (eventType : EventType) :
    Operated (noted (.replayDelivery id) (some (tenantID, eventType)) tenantID actor
      .webhookReplay (toString id) eventType.text)

def TokenRead : Stmt → Prop
  | .selectToken _ | .selectConsoleToken _ => True
  | _ => False

/-- The calls look tokens up on a connection of their own. -/
abbrev operators : Discipline Stmt.Rows := ⟨Operated, TokenRead, fun _ => False⟩

/-- A call is over with its transaction when it returns. -/
def Over {α : Type} (_ : α) (st : Stage Stmt.Rows) : Prop := ∀ h, st ≠ .opened h

section Calls

variable {α : Type} {a : α} {err : StoreError → Stage Stmt.Rows → Prop} {st : Stage Stmt.Rows}

@[simp] theorem over_idle : Over a .idle := nofun
@[simp] theorem over_failed : Over a .failed := nofun
@[simp] theorem over_committed {h : List (Entry Stmt.Rows)} : Over a (.committed h) := nofun

theorem ends_read {s : Stmt} {ok : Except DbError s.Rows → Stage Stmt.Rows → Prop}
    (hs : TokenRead s) (h : ∀ a, ok a st) : Ends operators (Querier.pool.ask s) ok err st :=
  ends_effect.mpr (Or.inl ⟨hs, h⟩)

theorem ends_insertAdminAudit {tenantID actor : String} {action : AdminAction}
    {targetID detail : String} {ok : Unit → Stage Stmt.Rows → Prop} {h : List (Entry Stmt.Rows)} :
    Ends operators (insertAdminAudit .tx tenantID actor action targetID detail) ok err (.opened h) ↔
      ok () (.opened (h ++ [⟨.insertAdminAudit tenantID actor action targetID detail, ()⟩])) ∧
        ∀ e, err (.db e) .failed := by
  refine ends_tx_exec.trans ?_
  exact and_congr_left fun _ => ⟨fun hr => hr (), fun hr _ => hr⟩

/-- The end that all the calls share: the entry, then the commit. -/
theorem ends_noted {s : Stmt} {x : s.Rows} {tenantID actor : String} {action : AdminAction}
    {targetID detail : String}
    (h : Operated (noted s x tenantID actor action targetID detail)) :
    Ends operators (do
        insertAdminAudit .tx tenantID actor action targetID detail
        commit
        return a)
      (fun a st => Over a st.rollback) (fun e st => Over e st.rollback) (.opened [⟨s, x⟩]) := by
  refine ends_bind.mpr (ends_insertAdminAudit.mpr ⟨?_, by simp⟩)
  refine ends_bind.mpr (ends_commit.mpr ⟨h, by simp, by simp⟩)

theorem ends_getTokenByKeyID {keyID : String} {ok : TokenRow → Stage Stmt.Rows → Prop}
    (hok : ∀ t, ok t st) (herr : ∀ e, err e st) :
    Ends operators (getTokenByKeyID keyID) ok err st := by
  refine ends_bind.mpr (ends_read trivial fun a => ?_)
  split
  · split <;> exact herr _
  · exact hok _

theorem ends_getConsoleTokenByKeyID {keyID : String}
    {ok : ConsoleTokenRow → Stage Stmt.Rows → Prop} (hok : ∀ t, ok t st) (herr : ∀ e, err e st) :
    Ends operators (getConsoleTokenByKeyID keyID) ok err st := by
  refine ends_bind.mpr (ends_read trivial fun a => ?_)
  split
  · split <;> exact herr _
  · exact hok _

end Calls

/-- A call that starts with one statement goes on from its rows. -/
theorem ends_change {α : Type} {s : Stmt} {f : Except DbError s.Rows → Call α}
    (hok : ∀ x, Ends operators (f (.ok x)) (fun a st => Over a st.rollback)
      (fun e st => Over e st.rollback) (.opened [⟨s, x⟩]))
    (herr : ∀ e, Ends operators (f (.error e)) (fun a st => Over a st.rollback)
      (fun e st => Over e st.rollback) .failed) :
    Ends operators (inTx (Querier.tx.ask s >>= f)) Over Over .idle :=
  ends_inTx.mpr ⟨ends_bind.mpr (ends_tx_ask.mpr ⟨hok, herr⟩), by simp⟩

theorem ends_issue {β : Type} {s : Stmt} {tenantID actor : String} {action : AdminAction}
    {targetID detail : String} {f : s.Rows → β}
    (h : ∀ x, Operated (noted s x tenantID actor action targetID detail)) :
    Ends operators (inTx do
        let t ← Querier.tx.exec s
        insertAdminAudit .tx tenantID actor action targetID detail
        commit
        return f t) Over Over .idle :=
  ends_inTx.mpr ⟨ends_bind.mpr (ends_tx_exec.mpr ⟨fun x => ends_noted (h x), by simp⟩), by simp⟩

variable (sha256 : String → List UInt8)

theorem revokeToken_ends (keyID actor : String) :
    Ends operators (Store.revokeToken keyID actor) Over Over .idle := by
  refine ends_change (fun x => ?_) (fun e => ?_)
  · cases x with
    | none => exact ends_bind.mpr (ends_bind.mpr (ends_getTokenByKeyID (by simp) (by simp)))
    | some tenantID => exact ends_noted (.revokeToken keyID tenantID actor)
  · cases hm : isMissingRow e with
    | false => simp [scanRow, hm]
    | true =>
      simp only [scanRow, hm, Bool.not_true]
      exact ends_bind.mpr (ends_bind.mpr (ends_getTokenByKeyID (by simp) (by simp)))

theorem revokeConsoleToken_ends (keyID actor : String) :
    Ends operators (Store.revokeConsoleToken keyID actor) Over Over .idle := by
  refine ends_change (fun x => ?_) (fun e => ?_)
  · cases x with
    | none =>
      exact ends_bind.mpr (ends_bind.mpr (ends_getConsoleTokenByKeyID (by simp) (by simp)))
    | some k => exact ends_noted (.revokeConsoleToken keyID k actor)
  · cases hm : isMissingRow e with
    | false => simp [scanRow, hm]
    | true =>
      simp only [scanRow, hm, Bool.not_true]
      exact ends_bind.mpr (ends_bind.mpr (ends_getConsoleTokenByKeyID (by simp) (by simp)))

theorem registerAttribute_ends (tenantID name typ actor : String) :
    Ends operators (Store.registerAttribute tenantID name typ actor) Over Over .idle := by
  unfold Store.registerAttribute
  generalize (if trimSpace typ = "" then "string" else typ) = t
  by_cases hr : reservedAttribute (trimSpace name) = true
  · exact (congrArg (Ends operators · Over Over .idle) (if_pos hr)).mpr (by simp)
  · refine (congrArg (Ends operators · Over Over .idle) (if_neg hr)).mpr ?_
    refine ends_change (fun a => ends_noted (.registerAttribute _ (trimSpace name) t actor a))
      (fun e => ?_)
    cases hu : isUniqueViolationOn e uniqueAttributeIndex <;> simp [hu]

theorem unregisterAttribute_ends (tenantID name actor : String) :
    Ends operators (Store.unregisterAttribute tenantID name actor) Over Over .idle := by
  refine ends_inTx.mpr ⟨ends_bind.mpr (ends_tx_exec.mpr ⟨fun n => ?_, by simp⟩), by simp⟩
  by_cases hn : n = 0
  · simp [hn]
  · simp only [if_neg hn]
    exact ends_noted (.unregisterAttribute _ _ n actor hn)

theorem replayDeadLetter_ends (id : Nat) (actor : String) :
    Ends operators (Store.replayDeadLetter id actor) Over Over .idle := by
  refine ends_change (fun x => ?_) (fun e => ?_)
  · cases x with
    | none => simp [scanRow, isMissingRow]
    | some d => exact ends_noted (.replayDeadLetter id d.1 actor d.2)
  · cases hm : isMissingRow e <;> simp [scanRow, hm]

theorem AdminCall.call_ends (c : AdminCall) : Ends operators (c.call sha256) Over Over .idle := by
  cases c with
  | issueToken keyID secret tenantID label createdBy expiresAt =>
    exact ends_bind.mpr
      ((ends_issue fun t => .issueToken _ t _ _ _).mono (by simp [Over]) (by simp [Over]))
  | revokeToken keyID actor => exact revokeToken_ends keyID actor
  | issueConsoleToken keyID secret label createdBy expiresAt =>
    exact ends_bind.mpr
      ((ends_issue fun t => .issueConsoleToken _ t _ _).mono (by simp [Over]) (by simp [Over]))
  | revokeConsoleToken keyID actor => exact revokeConsoleToken_ends keyID actor
  | registerAttribute tenantID name typ actor =>
    exact ends_bind.mpr ((registerAttribute_ends ..).mono (by simp [Over]) (by simp [Over]))
  | unregisterAttribute tenantID name actor => exact unregisterAttribute_ends ..
  | replayDeadLetter id actor => exact replayDeadLetter_ends id actor

/-! ### One commit -/

variable {pg : Postgres} {R : Condition Stmt.Rows Write Env} {db₀ db : Db}
  {log : List (Commit Stmt.Rows Write Env)} {c : Commit Stmt.Rows Write Env}

structure AdminAuditRow.Says (a : AdminAuditRow) (tenantID : String) (action : AdminAction)
    (targetID : String) : Prop where
  tenant : a.tenantID = nullable tenantID
  action : a.action = action
  target : a.targetID = targetID

/-- What a call does to the committed state in one step: a guarded change and its entry. -/
inductive AdminStep (db : Db) : List Write → Prop where
  | read : AdminStep db []
  | issueToken (r : TokenRow) (a tenantID) : db.tokens.find? r.keyID = none →
    r.revokedAt = none → a.Says tenantID .tokenIssue r.keyID →
    AdminStep db [.putToken r, .addAdminAudit a]
  | revokeToken (r : TokenRow) (t a tenantID) : db.tokens.find? r.keyID = some r →
    r.revokedAt = none → a.Says tenantID .tokenRevoke r.keyID →
    AdminStep db [.putToken { r with revokedAt := some t }, .addAdminAudit a]
  | issueConsoleToken (r : ConsoleTokenRow) (a tenantID) : db.consoleTokens.find? r.keyID = none →
    r.revokedAt = none → a.Says tenantID .consoleTokenIssue r.keyID →
    AdminStep db [.putConsoleToken r, .addAdminAudit a]
  | revokeConsoleToken (r : ConsoleTokenRow) (t a tenantID) :
    db.consoleTokens.find? r.keyID = some r →
    r.revokedAt = none → a.Says tenantID .consoleTokenRevoke r.keyID →
    AdminStep db [.putConsoleToken { r with revokedAt := some t }, .addAdminAudit a]
  | registerAttribute (r : AttributeRow) (a) : db.attributes.find? r.key = none →
    a.Says r.tenantID .attributeRegister r.name →
    AdminStep db [.putAttribute r, .addAdminAudit a]
  | unregisterAttribute (r : AttributeRow) (a) : db.attributes.find? r.key = some r →
    a.Says r.tenantID .attributeUnregister r.name →
    AdminStep db [.dropAttribute r.key, .addAdminAudit a]
  | replayDeadLetter (id d now a) : db.deadLetterOf id = some d →
    a.Says d.tenantID .webhookReplay (toString id) →
    AdminStep db [.putDelivery (requeue now d), .addAdminAudit a]

/-- The row of a token, of a console token, of an attribute. -/
def tokenFocus (pg : Postgres) (k : String) : Focus (engine pg) (Option TokenRow) where
  key := .token k
  see db := db.tokens.find? k
  act
    | .putToken r, b => if k = r.keyID then some r else b
    | _, b => b
  see_apply db w := by cases w <;> simp [engine, Write.apply]
  act_other w b h := by cases w <;> simp_all [engine, Write.keys]

def consoleTokenFocus (pg : Postgres) (k : String) :
    Focus (engine pg) (Option ConsoleTokenRow) where
  key := .consoleToken k
  see db := db.consoleTokens.find? k
  act
    | .putConsoleToken r, b => if k = r.keyID then some r else b
    | _, b => b
  see_apply db w := by cases w <;> simp [engine, Write.apply]
  act_other w b h := by cases w <;> simp_all [engine, Write.keys]

def attributeFocus (pg : Postgres) (k : String × String) :
    Focus (engine pg) (Option AttributeRow) where
  key := .attribute k
  see db := db.attributes.find? k
  act
    | .putAttribute r, b => if k = r.key then some r else b
    | .dropAttribute a, b => if k = a then none else b
    | _, b => b
  see_apply db w := by cases w <;> simp [engine, Write.apply]
  act_other w b h := by cases w <;> simp_all [engine, Write.keys]

/-- Two statements that a commit consists of, each as it ran. -/
theorem noted_ran {s : Stmt} {x : s.Rows} {tenantID actor : String} {action : AdminAction}
    {targetID detail : String} {hist : List (Record Stmt.Rows Write Env)} {now : Time}
    (hes : hist.map Record.entry = noted s x tenantID actor action targetID detail)
    (hs : (engine pg).Sound db₀ R log now [] hist) :
    ∃ ws env snap pos a, writesOf hist = ws ++ [.addAdminAudit a] ∧
      a.Says tenantID action targetID ∧ snap ≤ pos ∧
      exec pg now env s ((engine pg).dbAt db₀ log snap) ((engine pg).dbAt db₀ log pos) = .ok (x, ws) ∧
      ∀ c ∈ log.drop pos, List.Disjoint ((engine pg).keysOf ws) ((engine pg).keysOf c.writes) := by
  obtain ⟨ws, env, snap, pos, rest, rfl, hrest⟩ := map_entry_eq_cons.mp hes
  obtain ⟨ws', env', snap', pos', rfl⟩ := map_entry_eq_singleton.mp hrest
  obtain ⟨h₁, h₂, -⟩ := hs
  have hran := h₂.ran
  simp only [engine, exec, execInsertAdminAudit, Except.ok.injEq, Prod.mk.injEq, true_and] at hran
  subst hran
  exact ⟨ws, env, snap, pos,
    ⟨env'.serial, now, nullable tenantID, actor, action, targetID, nullable detail⟩, by simp,
    ⟨rfl, rfl, rfl⟩, h₁.snap_le, h₁.ran, h₁.held⟩

/-- A row that nobody has written since a statement took effect is as that statement found it. -/
theorem held_see {β : Type} (db₀ : Db) (F : Focus (engine pg) β) {ws : List Write} {pos : Nat}
    (hk : F.key ∈ (engine pg).keysOf ws)
    (h : ∀ c ∈ log.drop pos, List.Disjoint ((engine pg).keysOf ws) ((engine pg).keysOf c.writes)) :
    F.see ((engine pg).dbAt db₀ log pos) = F.see ((engine pg).current db₀ log) :=
  F.see_dbAt db₀ fun c hc hkc => h c hc hk hkc

theorem pool_writes {stmt : Stmt} {now : Time} {env : Env} {snap cur : Db} {rows : stmt.Rows}
    {ws : List Write} (h : TokenRead stmt ∨ False)
    (hx : exec pg now env stmt snap cur = .ok (rows, ws)) : ws = [] := by
  rcases h with h | h
  · cases stmt with
    | selectToken keyID => exact (Prod.mk.inj (Except.ok.inj hx)).2.symm
    | selectConsoleToken keyID => exact (Prod.mk.inj (Except.ok.inj hx)).2.symm
    | _ => exact h.elim
  · exact h.elim

/-- A committed transaction is one operation on the version that its change took effect on. -/
theorem operated_step {hist : List (Record Stmt.Rows Write Env)} {now : Time}
    (ho : Operated (hist.map Record.entry)) (hs : (engine pg).Sound db₀ R log now [] hist) :
    ∃ pos, AdminStep ((engine pg).dbAt db₀ log pos) (writesOf hist) ∧ ∀ c ∈ log.drop pos,
      List.Disjoint ((engine pg).keysOf (writesOf hist)) ((engine pg).keysOf c.writes) := by
  generalize hes : hist.map Record.entry = es at ho
  cases ho with
  | issueToken r t tenantID actor label =>
    obtain ⟨ws, env, snap, pos, a, hws, ha, -, hran, hheld⟩ := noted_ran hes hs
    refine ⟨pos, ?_, by simpa [hws, engine, Write.keys] using hheld⟩
    simp only [exec, execInsertToken] at hran
    split at hran
    · cases hran
    · rename_i hfree
      cases hran
      rw [hws]
      exact .issueToken _ a tenantID (by simpa using hfree) rfl ha
  | revokeToken keyID tenantID actor =>
    obtain ⟨ws, env, snap, pos, a, hws, ha, -, hran, hheld⟩ := noted_ran hes hs
    refine ⟨pos, ?_, by simpa [hws, engine, Write.keys] using hheld⟩
    simp only [exec, execRevokeToken] at hran
    split at hran
    · rename_i r _ hr
      cases hran
      obtain ⟨hfind, hlive⟩ := Option.filter_eq_some_iff.mp hr
      obtain rfl := Table.find?_key hfind
      rw [hws]
      exact .revokeToken r now a _ hfind (by simpa using hlive) ha
    · cases hran
  | issueConsoleToken r t actor label =>
    obtain ⟨ws, env, snap, pos, a, hws, ha, -, hran, hheld⟩ := noted_ran hes hs
    refine ⟨pos, ?_, by simpa [hws, engine, Write.keys] using hheld⟩
    simp only [exec, execInsertConsoleToken] at hran
    split at hran
    · cases hran
    · rename_i hfree
      cases hran
      rw [hws]
      exact .issueConsoleToken _ a _ (by simpa using hfree) rfl ha
  | revokeConsoleToken keyID k actor =>
    obtain ⟨ws, env, snap, pos, a, hws, ha, -, hran, hheld⟩ := noted_ran hes hs
    refine ⟨pos, ?_, by simpa [hws, engine, Write.keys] using hheld⟩
    simp only [exec, execRevokeConsoleToken] at hran
    split at hran
    · rename_i r _ hr
      cases hran
      obtain ⟨hfind, hlive⟩ := Option.filter_eq_some_iff.mp hr
      obtain rfl := Table.find?_key hfind
      rw [hws]
      exact .revokeConsoleToken r now a _ hfind (by simpa using hlive) ha
    · cases hran
  | registerAttribute tenantID name typ actor r =>
    obtain ⟨ws, env, snap, pos, a, hws, ha, -, hran, hheld⟩ := noted_ran hes hs
    refine ⟨pos, ?_, by simpa [hws, engine, Write.keys] using hheld⟩
    simp only [exec, execInsertAttribute] at hran
    split at hran
    · cases hran
    · rename_i hfree
      cases hran
      rw [hws]
      exact .registerAttribute _ a (by simpa using hfree) ha
  | unregisterAttribute tenantID name n actor hn =>
    obtain ⟨ws, env, snap, pos, a, hws, ha, -, hran, hheld⟩ := noted_ran hes hs
    refine ⟨pos, ?_, by simpa [hws, engine, Write.keys] using hheld⟩
    simp only [exec, execDeleteAttribute] at hran
    split at hran
    · rename_i r _ hr
      cases hran
      have hkey := Table.find?_key hr
      obtain ⟨rfl, rfl⟩ := Prod.mk.inj hkey
      rw [hws]
      exact .unregisterAttribute r a hr ha
    · cases hran
      exact (hn rfl).elim
  | replayDeadLetter id tenantID actor eventType =>
    obtain ⟨ws, env, snap, pos, a, hws, ha, -, hran, hheld⟩ := noted_ran hes hs
    refine ⟨pos, ?_, by simpa [hws, engine, Write.keys] using hheld⟩
    simp only [exec, execReplayDelivery] at hran
    split at hran
    · rename_i d _ hd
      cases hran
      rw [hws]
      exact .replayDeadLetter id d now a hd ha
    · cases hran

/-- The calls queue no deliveries. -/
theorem AdminStep.queues {ws : List Write} (h : AdminStep db ws) :
    ∀ w ∈ ws, ∀ d, w ≠ .addDelivery d := by
  cases h <;> simp

theorem dead_other {id : Nat} {ws : List Write} (hq : ∀ w ∈ ws, ∀ d, w ≠ .addDelivery d)
    (hk : .delivery id ∉ (engine pg).keysOf ws) :
    ((engine pg).applyAll db ws).deadLetterOf id = db.deadLetterOf id := by
  induction ws generalizing db with
  | nil => rfl
  | cons w ws ih =>
    rw [Engine.keysOf_cons, List.mem_append, not_or] at hk
    rw [Engine.applyAll_cons, ih (fun x hx => hq x (List.mem_cons_of_mem _ hx)) hk.2]
    cases w with
    | addDelivery d => exact (hq _ List.mem_cons_self d rfl).elim
    | putDelivery d =>
      have hd : d.id ≠ id := by simpa [engine, Write.keys, eq_comm] using hk.1
      let p (x : DeliveryRow) : Bool := x.id = id ∧ x.status = .deadLetter
      let f (x : DeliveryRow) : DeliveryRow := if x.id = d.id then d else x
      have hp : p ∘ f = p := by
        funext x
        by_cases hx : x.id = d.id
        · have hne : x.id ≠ id := fun he => hd (hx.symm.trans he)
          simp [p, f, hx, hd]
        · simp [p, f, hx]
      have hfind : (db.deliveries.map f).find? p = db.deliveries.find? p := by
        rw [List.find?_map, hp]
        cases hx : db.deliveries.find? p with
        | none => rfl
        | some x =>
          have hpx : p x = true := List.find?_some hx
          have hid : x.id = id := (of_decide_eq_true hpx).1
          have hne : x.id ≠ d.id := fun he => hd (he.symm.trans hid)
          simp [f, hne]
      exact hfind
    | _ => rfl

theorem dead_id {id : Nat} {d : DeliveryRow} (h : db.deadLetterOf id = some d) :
    d.id = id ∧ d.status = .deadLetter := by
  have hd := List.find?_some h
  exact of_decide_eq_true hd

theorem dead_dbAt (db₀ : Db) (id : Nat) {pos : Nat} (hq : ∀ c ∈ log, ∀ w ∈ c.writes, ∀ d, w ≠ .addDelivery d)
    (hk : ∀ c ∈ log.drop pos, .delivery id ∉ (engine pg).keysOf c.writes) :
    ((engine pg).dbAt db₀ log pos).deadLetterOf id =
      ((engine pg).current db₀ log).deadLetterOf id := by
  rw [current_drop]
  have hq' : ∀ c ∈ log.drop pos, ∀ w ∈ c.writes, ∀ d, w ≠ .addDelivery d :=
    fun c hc => hq c (List.mem_of_mem_drop hc)
  generalize (engine pg).dbAt db₀ log pos = db
  generalize log.drop pos = cs at hk hq'
  induction cs generalizing db with
  | nil => rfl
  | cons c cs ih =>
    rw [List.foldl_cons, ← ih _ (fun x hx => hk x (List.mem_cons_of_mem _ hx))
      (fun x hx => hq' x (List.mem_cons_of_mem _ hx)),
      dead_other (hq' c List.mem_cons_self) (hk c List.mem_cons_self)]

/-- An operation whose rows nobody has written since is one on the newest version. -/
theorem AdminStep.later {ws : List Write} {pos : Nat}
    (h : AdminStep ((engine pg).dbAt db₀ log pos) ws)
    (hheld : ∀ c ∈ log.drop pos,
      List.Disjoint ((engine pg).keysOf ws) ((engine pg).keysOf c.writes))
    (hq : ∀ c ∈ log, ∀ w ∈ c.writes, ∀ d, w ≠ .addDelivery d) :
    AdminStep ((engine pg).current db₀ log) ws := by
  cases h with
  | read => exact .read
  | issueToken r a t hfree hlive ha =>
    have hsee := held_see db₀ (tokenFocus pg r.keyID)
      (by simp [tokenFocus, engine, Write.keys]) hheld
    exact .issueToken r a t (hsee.symm.trans hfree) hlive ha
  | revokeToken r t a tenantID hfind hlive ha =>
    have hsee := held_see db₀ (tokenFocus pg r.keyID)
      (by simp [tokenFocus, engine, Write.keys]) hheld
    exact .revokeToken r t a tenantID (hsee.symm.trans hfind) hlive ha
  | issueConsoleToken r a t hfree hlive ha =>
    have hsee := held_see db₀ (consoleTokenFocus pg r.keyID)
      (by simp [consoleTokenFocus, engine, Write.keys]) hheld
    exact .issueConsoleToken r a t (hsee.symm.trans hfree) hlive ha
  | revokeConsoleToken r t a tenantID hfind hlive ha =>
    have hsee := held_see db₀ (consoleTokenFocus pg r.keyID)
      (by simp [consoleTokenFocus, engine, Write.keys]) hheld
    exact .revokeConsoleToken r t a tenantID (hsee.symm.trans hfind) hlive ha
  | registerAttribute r a hfree ha =>
    have hsee := held_see db₀ (attributeFocus pg r.key)
      (by simp [attributeFocus, engine, Write.keys]) hheld
    exact .registerAttribute r a (hsee.symm.trans hfree) ha
  | unregisterAttribute r a hfind ha =>
    have hsee := held_see db₀ (attributeFocus pg r.key)
      (by simp [attributeFocus, engine, Write.keys]) hheld
    exact .unregisterAttribute r a (hsee.symm.trans hfind) ha
  | replayDeadLetter id d now a hd ha =>
    have hid : d.id = id := (dead_id hd).1
    have hsee := dead_dbAt db₀ id hq fun c hc hk =>
      hheld c hc (by simp [engine, Write.keys, requeue, hid]) hk
    exact .replayDeadLetter id d now a (hsee.symm.trans hd) ha

theorem history_queues (h : (engine pg).History operators db₀ R log) :
    ∀ c ∈ log, ∀ w ∈ c.writes, ∀ d, w ≠ .addDelivery d := by
  induction h with
  | nil => simp
  | tx _ hc hs ih =>
    obtain ⟨pos, hop, -⟩ := operated_step hc hs
    intro c hc
    rcases List.mem_append.mp hc with hc | hc
    · exact ih c hc
    · rw [List.mem_singleton.mp hc]
      exact hop.queues
  | pool _ hd hx ih =>
    intro c hc
    rcases List.mem_append.mp hc with hc | hc
    · exact ih c hc
    · rw [List.mem_singleton.mp hc, Commit.writes, writesOf_cons, pool_writes hd hx]
      simp

/-- Every commit is one operation on the state that it finds. -/
theorem history_step (h : (engine pg).History operators db₀ R (log ++ [c])) :
    AdminStep ((engine pg).current db₀ log) c.writes := by
  generalize hl : log ++ [c] = l at h
  cases h with
  | nil => simp at hl
  | tx h hc hs =>
    obtain ⟨rfl, hc'⟩ := List.append_inj' hl rfl
    obtain rfl := (List.cons.inj hc').1
    obtain ⟨pos, hop, hheld⟩ := operated_step hc hs
    exact hop.later hheld (history_queues h)
  | pool h hd hx =>
    obtain ⟨rfl, hc'⟩ := List.append_inj' hl rfl
    obtain rfl := (List.cons.inj hc').1
    rw [Commit.writes, writesOf_cons, pool_writes hd hx]
    exact .read

/-! ### The trail -/

def Db.adminEntries (db : Db) (action : AdminAction) (targetID : String) : Nat :=
  db.adminAuditLog.countP fun a => a.action = action ∧ a.targetID = targetID

def Db.attributeEntries (db : Db) (action : AdminAction) (tenantID name : String) : Nat :=
  db.adminAuditLog.countP fun a =>
    a.action = action ∧ a.tenantID = nullable tenantID ∧ a.targetID = name

/-- The entries account for every token and attribute. -/
structure AdminMirrored (db : Db) : Prop where
  issued : ∀ k, db.adminEntries .tokenIssue k = (db.tokens.find? k).isSome.toNat
  revoked : ∀ k, db.adminEntries .tokenRevoke k =
    ((db.tokens.find? k).any fun r => r.revokedAt.isSome).toNat
  consoleIssued : ∀ k, db.adminEntries .consoleTokenIssue k =
    (db.consoleTokens.find? k).isSome.toNat
  consoleRevoked : ∀ k, db.adminEntries .consoleTokenRevoke k =
    ((db.consoleTokens.find? k).any fun r => r.revokedAt.isSome).toNat
  registered : ∀ t n, db.attributeEntries .attributeRegister t n =
    db.attributeEntries .attributeUnregister t n + (db.attributes.find? (t, n)).isSome.toNat

theorem adminMirrored_empty : AdminMirrored .empty :=
  ⟨fun _ => rfl, fun _ => rfl, fun _ => rfl, fun _ => rfl, fun _ _ => rfl⟩

theorem nullable_injective {s t : String} (h : nullable s = nullable t) : s = t := by
  unfold nullable at h
  by_cases hs : s = "" <;> by_cases ht : t = "" <;> simp_all

section Entries

variable (db d : Db) {a : AdminAuditRow} {tenantID targetID : String} {action : AdminAction}

theorem entries_snoc (hd : d.adminAuditLog = db.adminAuditLog ++ [a])
    (ha : a.Says tenantID action targetID) (action' : AdminAction) (k : String) :
    d.adminEntries action' k =
      db.adminEntries action' k + (decide (action = action' ∧ targetID = k)).toNat := by
  rw [Db.adminEntries, hd, List.countP_append, Db.adminEntries]
  by_cases h : action = action' ∧ targetID = k <;> simp [ha.action, ha.target, h]

theorem attributeEntries_snoc (hd : d.adminAuditLog = db.adminAuditLog ++ [a])
    (ha : a.Says tenantID action targetID) (action' : AdminAction) (t n : String) :
    d.attributeEntries action' t n = db.attributeEntries action' t n +
      (decide (action = action' ∧ tenantID = t ∧ targetID = n)).toNat := by
  have hnull : a.tenantID = nullable t ↔ tenantID = t := by
    rw [ha.tenant]
    exact ⟨nullable_injective, congrArg nullable⟩
  rw [Db.attributeEntries, hd, List.countP_append, Db.attributeEntries]
  by_cases h : action = action' ∧ tenantID = t ∧ targetID = n <;>
    simp [ha.action, ha.target, hnull, h]

end Entries

/-- An operation and its entry keep the trail in step. -/
theorem AdminStep.mirrored {ws : List Write} (h : AdminStep db ws) (hm : AdminMirrored db) :
    AdminMirrored ((engine pg).applyAll db ws) := by
  cases h with
  | read => exact hm
  | issueToken r a t hfree hlive ha =>
    have hs := entries_snoc db ((engine pg).applyAll db [.putToken r, .addAdminAudit a]) rfl ha
    have hsa := attributeEntries_snoc db
      ((engine pg).applyAll db [.putToken r, .addAdminAudit a]) rfl ha
    refine ⟨fun k => ?_, fun k => ?_, fun k => ?_, fun k => ?_, fun t n => ?_⟩
    · rw [hs, hm.issued]
      by_cases hk : k = r.keyID
      · subst hk
        simp [engine, Write.apply, hfree]
      · simp [engine, Write.apply, hk, Ne.symm hk]
    · rw [hs, hm.revoked]
      by_cases hk : k = r.keyID
      · subst hk
        simp [engine, Write.apply, hfree, hlive]
      · simp [engine, Write.apply, hk, Ne.symm hk]
    · rw [hs, hm.consoleIssued]
      simp [engine, Write.apply]
    · rw [hs, hm.consoleRevoked]
      simp [engine, Write.apply]
    · rw [hsa, hsa, hm.registered]
      simp [engine, Write.apply]
  | revokeToken r t' a t hfind hlive ha =>
    have hs := entries_snoc db ((engine pg).applyAll db [.putToken { r with revokedAt := some t' }, .addAdminAudit a]) rfl ha
    have hsa := attributeEntries_snoc db
      ((engine pg).applyAll db [.putToken { r with revokedAt := some t' }, .addAdminAudit a]) rfl ha
    refine ⟨fun k => ?_, fun k => ?_, fun k => ?_, fun k => ?_, fun t n => ?_⟩
    · rw [hs, hm.issued]
      by_cases hk : k = r.keyID
      · subst hk
        simp [engine, Write.apply, hfind]
      · simp [engine, Write.apply, hk, Ne.symm hk]
    · rw [hs, hm.revoked]
      by_cases hk : k = r.keyID
      · subst hk
        simp [engine, Write.apply, hfind, hlive]
      · simp [engine, Write.apply, hk, Ne.symm hk]
    · rw [hs, hm.consoleIssued]
      simp [engine, Write.apply]
    · rw [hs, hm.consoleRevoked]
      simp [engine, Write.apply]
    · rw [hsa, hsa, hm.registered]
      simp [engine, Write.apply]
  | issueConsoleToken r a t hfree hlive ha =>
    have hs := entries_snoc db ((engine pg).applyAll db [.putConsoleToken r, .addAdminAudit a]) rfl ha
    have hsa := attributeEntries_snoc db
      ((engine pg).applyAll db [.putConsoleToken r, .addAdminAudit a]) rfl ha
    refine ⟨fun k => ?_, fun k => ?_, fun k => ?_, fun k => ?_, fun t n => ?_⟩
    · rw [hs, hm.issued]
      simp [engine, Write.apply]
    · rw [hs, hm.revoked]
      simp [engine, Write.apply]
    · rw [hs, hm.consoleIssued]
      by_cases hk : k = r.keyID
      · subst hk
        simp [engine, Write.apply, hfree]
      · simp [engine, Write.apply, hk, Ne.symm hk]
    · rw [hs, hm.consoleRevoked]
      by_cases hk : k = r.keyID
      · subst hk
        simp [engine, Write.apply, hfree, hlive]
      · simp [engine, Write.apply, hk, Ne.symm hk]
    · rw [hsa, hsa, hm.registered]
      simp [engine, Write.apply]
  | revokeConsoleToken r t' a t hfind hlive ha =>
    have hs := entries_snoc db ((engine pg).applyAll db [.putConsoleToken { r with revokedAt := some t' }, .addAdminAudit a]) rfl ha
    have hsa := attributeEntries_snoc db
      ((engine pg).applyAll db [.putConsoleToken { r with revokedAt := some t' }, .addAdminAudit a]) rfl ha
    refine ⟨fun k => ?_, fun k => ?_, fun k => ?_, fun k => ?_, fun t n => ?_⟩
    · rw [hs, hm.issued]
      simp [engine, Write.apply]
    · rw [hs, hm.revoked]
      simp [engine, Write.apply]
    · rw [hs, hm.consoleIssued]
      by_cases hk : k = r.keyID
      · subst hk
        simp [engine, Write.apply, hfind]
      · simp [engine, Write.apply, hk, Ne.symm hk]
    · rw [hs, hm.consoleRevoked]
      by_cases hk : k = r.keyID
      · subst hk
        simp [engine, Write.apply, hfind, hlive]
      · simp [engine, Write.apply, hk, Ne.symm hk]
    · rw [hsa, hsa, hm.registered]
      simp [engine, Write.apply]
  | registerAttribute r a hfree ha =>
    have hs := entries_snoc db ((engine pg).applyAll db [.putAttribute r, .addAdminAudit a]) rfl ha
    have hsa := attributeEntries_snoc db
      ((engine pg).applyAll db [.putAttribute r, .addAdminAudit a]) rfl ha
    refine ⟨fun k => ?_, fun k => ?_, fun k => ?_, fun k => ?_, fun t n => ?_⟩
    · rw [hs, hm.issued]
      simp [engine, Write.apply]
    · rw [hs, hm.revoked]
      simp [engine, Write.apply]
    · rw [hs, hm.consoleIssued]
      simp [engine, Write.apply]
    · rw [hs, hm.consoleRevoked]
      simp [engine, Write.apply]
    · rw [hsa, hsa, hm.registered]
      by_cases hk : (t, n) = r.key
      · obtain ⟨rfl, rfl⟩ := Prod.mk.inj hk
        have hfree' : db.attributes.find? (r.tenantID, r.name) = none := hfree
        simp [engine, Write.apply, AttributeRow.key, hfree']
      · have hne : ¬ (r.tenantID = t ∧ r.name = n) := fun he => hk (by rw [← he.1, ← he.2]; rfl)
        simp [engine, Write.apply, hk, hne]
  | unregisterAttribute r a hfind ha =>
    have hs := entries_snoc db ((engine pg).applyAll db [.dropAttribute r.key, .addAdminAudit a]) rfl ha
    have hsa := attributeEntries_snoc db
      ((engine pg).applyAll db [.dropAttribute r.key, .addAdminAudit a]) rfl ha
    refine ⟨fun k => ?_, fun k => ?_, fun k => ?_, fun k => ?_, fun t n => ?_⟩
    · rw [hs, hm.issued]
      simp [engine, Write.apply]
    · rw [hs, hm.revoked]
      simp [engine, Write.apply]
    · rw [hs, hm.consoleIssued]
      simp [engine, Write.apply]
    · rw [hs, hm.consoleRevoked]
      simp [engine, Write.apply]
    · rw [hsa, hsa, hm.registered]
      by_cases hk : (t, n) = r.key
      · obtain ⟨rfl, rfl⟩ := Prod.mk.inj hk
        have hfind' : db.attributes.find? (r.tenantID, r.name) = some r := hfind
        simp [engine, Write.apply, AttributeRow.key, hfind']
      · have hne : ¬ (r.tenantID = t ∧ r.name = n) := fun he => hk (by rw [← he.1, ← he.2]; rfl)
        simp [engine, Write.apply, hk, hne]
  | replayDeadLetter id d now a hd ha =>
    have hs := entries_snoc db ((engine pg).applyAll db [.putDelivery (requeue now d), .addAdminAudit a]) rfl ha
    have hsa := attributeEntries_snoc db
      ((engine pg).applyAll db [.putDelivery (requeue now d), .addAdminAudit a]) rfl ha
    refine ⟨fun k => ?_, fun k => ?_, fun k => ?_, fun k => ?_, fun t n => ?_⟩
    · rw [hs, hm.issued]
      simp [engine, Write.apply]
    · rw [hs, hm.revoked]
      simp [engine, Write.apply]
    · rw [hs, hm.consoleIssued]
      simp [engine, Write.apply]
    · rw [hs, hm.consoleRevoked]
      simp [engine, Write.apply]
    · rw [hsa, hsa, hm.registered]
      simp [engine, Write.apply]

/-! ### Replays -/

def Db.statusOf (db : Db) (id : Nat) : Option DeliveryStatus :=
  (db.deliveries.find? fun d => d.id = id).map DeliveryRow.status

/-- A delivery goes from the dead letters back to the queue. -/
def Db.requeued (db next : Db) (id : Nat) : Nat :=
  if db.statusOf id = some .deadLetter ∧ next.statusOf id = some .pending then 1 else 0

/-- How often it does so in a run. -/
def replays (pg : Postgres) (id : Nat) : Db → List (Commit Stmt.Rows Write Env) → Nat
  | _, [] => 0
  | db, c :: cs =>
    let next := (engine pg).applyAll db c.writes
    db.requeued next id + replays pg id next cs

theorem replays_snoc (id : Nat) : replays pg id db (log ++ [c]) = replays pg id db log +
    ((engine pg).current db log).requeued ((engine pg).current db (log ++ [c])) id := by
  rw [current_snoc]
  induction log generalizing db with
  | nil => simp [replays]
  | cons x xs ih =>
    have hcurrent : (engine pg).current db (x :: xs) =
        (engine pg).current ((engine pg).applyAll db x.writes) xs := by
      simp [Engine.current, Engine.dbAt]
    rw [List.cons_append, replays, replays, ih, hcurrent]
    omega

/-- The primary key of `webhook_deliveries`. -/
def Db.DistinctDeliveries (db : Db) : Prop := (db.deliveries.map DeliveryRow.id).Nodup

theorem AdminStep.deliveryIDs {ws : List Write} (h : AdminStep db ws) :
    ((engine pg).applyAll db ws).deliveries.map DeliveryRow.id =
      db.deliveries.map DeliveryRow.id := by
  cases h with
  | replayDeadLetter id d now a hd ha =>
    simp only [applyAll_cons, applyAll_nil, engine, Write.apply, List.map_map]
    refine List.map_congr_left fun x _ => ?_
    by_cases hx : x.id = d.id <;> simp [requeue, hx]
  | _ => rfl

theorem status_of_dead (hn : db.DistinctDeliveries) {id : Nat} {d : DeliveryRow}
    (h : db.deadLetterOf id = some d) : db.statusOf id = some .deadLetter := by
  have hd : d ∈ db.deliveries := List.mem_of_find?_eq_some h
  obtain ⟨hid, hdead⟩ := dead_id h
  rw [Db.statusOf]
  cases hx : db.deliveries.find? (fun x => x.id = id) with
  | none => exact (List.find?_eq_none.mp hx d hd (by simpa using hid)).elim
  | some x =>
    have hxid : x.id = id := by simpa using List.find?_some hx
    obtain rfl : x = d := List.inj_on_of_nodup_map hn (List.mem_of_find?_eq_some hx) hd
      (hxid.trans hid.symm)
    rw [Option.map_some, hdead]

theorem requeued_same {d : Db} (h : d.deliveries = db.deliveries) (id : Nat) :
    db.requeued d id = 0 := by
  simp only [Db.requeued, Db.statusOf, h]
  cases (db.deliveries.find? fun d => d.id = id).map DeliveryRow.status with
  | none => rfl
  | some s => cases s <;> rfl

theorem find_put (l : List DeliveryRow) (r : DeliveryRow) (id : Nat) :
    (l.map fun x => if x.id = r.id then r else x).find? (fun x => x.id = id) =
      if r.id = id then (l.find? fun x => x.id = id).map fun _ => r
      else l.find? fun x => x.id = id := by
  induction l with
  | nil => simp
  | cons x xs ih =>
    rw [List.map_cons, List.find?_cons, List.find?_cons, ih]
    by_cases hr : r.id = id
    · by_cases hx : x.id = r.id
      · simp [hx, hr]
      · have hne : x.id ≠ id := fun he => hx (he.trans hr.symm)
        simp [hr, hne]
    · by_cases hx : x.id = r.id
      · simp [hx, hr]
      · simp [hx, hr]

theorem requeued_other {next : Db} {r : DeliveryRow} {id : Nat} (hr : r.id ≠ id)
    (h : next.deliveries = db.deliveries.map fun x => if x.id = r.id then r else x) :
    db.requeued next id = 0 := by
  have hsame : next.statusOf id = db.statusOf id := by
    rw [Db.statusOf, h, find_put, if_neg hr, Db.statusOf]
  rw [Db.requeued, hsame, if_neg]
  rintro ⟨hd, hp⟩
  rw [hd] at hp
  cases hp

theorem requeued_dead {next : Db} (hn : db.DistinctDeliveries) {id : Nat} {d : DeliveryRow}
    {now : Time} (hd : db.deadLetterOf id = some d) (h : next.deliveries =
      db.deliveries.map fun x => if x.id = (requeue now d).id then requeue now d else x) :
    db.requeued next id = 1 := by
  have hid : (requeue now d).id = id := (dead_id hd).1
  have hdead := status_of_dead hn hd
  obtain ⟨x, hx, -⟩ := Option.map_eq_some_iff.mp hdead
  refine if_pos ⟨hdead, ?_⟩
  rw [Db.statusOf, h, find_put, if_pos hid, hx]
  rfl

theorem toString_injective {m n : Nat} (h : toString m = toString n) : m = n :=
  Decimal.toDigits_injective (String.ofList_injective h)

/-- An operation sends a delivery back exactly when it adds the entry of a replay. -/
theorem AdminStep.replayed {ws : List Write} (h : AdminStep db ws) (hn : db.DistinctDeliveries)
    (id : Nat) : ((engine pg).applyAll db ws).adminEntries .webhookReplay (toString id) =
      db.adminEntries .webhookReplay (toString id) +
        db.requeued ((engine pg).applyAll db ws) id := by
  cases h with
  | read => exact congrArg (db.adminEntries _ _ + ·) (requeued_same rfl id).symm
  | replayDeadLetter id' d now a hd ha =>
    refine (entries_snoc db _ rfl ha _ _).trans
      (congrArg (db.adminEntries .webhookReplay (toString id) + ·) ?_)
    by_cases hid : id' = id
    · subst hid
      rw [requeued_dead hn hd rfl]
      simp
    · have hne : toString id' ≠ toString id := fun he => hid (toString_injective he)
      have hother : (requeue now d).id ≠ id := fun he => hid ((dead_id hd).1.symm.trans he)
      rw [requeued_other hother rfl]
      exact congrArg Bool.toNat (decide_eq_false fun he => hne he.2)
  | issueToken r a t hfree hlive ha =>
    refine (entries_snoc db _ rfl ha _ _).trans ?_
    exact congrArg (db.adminEntries _ _ + ·) (requeued_same rfl id).symm
  | revokeToken r t' a t hfind hlive ha =>
    refine (entries_snoc db _ rfl ha _ _).trans ?_
    exact congrArg (db.adminEntries _ _ + ·) (requeued_same rfl id).symm
  | issueConsoleToken r a t hfree hlive ha =>
    refine (entries_snoc db _ rfl ha _ _).trans ?_
    exact congrArg (db.adminEntries _ _ + ·) (requeued_same rfl id).symm
  | revokeConsoleToken r t' a t hfind hlive ha =>
    refine (entries_snoc db _ rfl ha _ _).trans ?_
    exact congrArg (db.adminEntries _ _ + ·) (requeued_same rfl id).symm
  | registerAttribute r a hfree ha =>
    refine (entries_snoc db _ rfl ha _ _).trans ?_
    exact congrArg (db.adminEntries _ _ + ·) (requeued_same rfl id).symm
  | unregisterAttribute r a hfind ha =>
    refine (entries_snoc db _ rfl ha _ _).trans ?_
    exact congrArg (db.adminEntries _ _ + ·) (requeued_same rfl id).symm

/-- The trail of a run, which starts where the entries account for the rows. -/
theorem history_mirrored (h : (engine pg).History operators db₀ R log) (hm : AdminMirrored db₀)
    (hn : db₀.DistinctDeliveries) :
    AdminMirrored ((engine pg).current db₀ log) ∧ ((engine pg).current db₀ log).DistinctDeliveries ∧
      ∀ id, ((engine pg).current db₀ log).adminEntries .webhookReplay (toString id) =
        db₀.adminEntries .webhookReplay (toString id) + replays pg id db₀ log := by
  induction log using List.reverseRecOn with
  | nil => exact ⟨hm, hn, fun _ => rfl⟩
  | append_singleton log c ih =>
    obtain ⟨hm', hn', hreplays⟩ := ih (h.of_prefix (List.prefix_append _ _))
    have hop := history_step h
    refine ⟨?_, ?_, fun id => ?_⟩
    · rw [current_snoc]
      exact hop.mirrored hm'
    · rw [current_snoc, Db.DistinctDeliveries, hop.deliveryIDs]
      exact hn'
    · have hstep : _ = _ + Db.requeued _ ((engine pg).applyAll _ c.writes) id := hop.replayed hn' id
      rw [replays_snoc, current_snoc, hstep, hreplays]
      omega

theorem adminProgs_wp {ι : Type} (sha256 : String → List UInt8) (calls : ι → AdminCall) (i : ι) :
    wp operators (adminProgs sha256 calls i) Over .idle := by
  refine wp_mono ?_ ((calls i).call_ends sha256)
  rintro (e | a) st hst <;> exact hst

/-- In every state that operators' calls reach, whatever their order and their failures, the
entries account for the tokens, the attributes and the replays. -/
theorem admin_trail_mirrors {ι : Type} [DecidableEq ι] [Fintype ι] {sha256 : String → List UInt8}
    {calls : ι → AdminCall} {st : Shared Stmt.Rows DbError Write Env (Except StoreError Unit) ι}
    (h : (engine pg).Reach db₀ (adminProgs sha256 calls) (fun _ _ => True) st)
    (hm : AdminMirrored db₀) (hn : db₀.DistinctDeliveries) :
    let db := (engine pg).current db₀ st.log
    AdminMirrored db ∧ ∀ id, db.adminEntries .webhookReplay (toString id) =
      db₀.adminEntries .webhookReplay (toString id) + replays pg id db₀ st.log := by
  have hany : (engine pg).Reach db₀ (adminProgs sha256 calls) ((engine pg).Meets anyStep) st := by
    refine h.mono fun s e _ => ?_
    cases e <;> simp [Engine.Meets, anyStep]
  have hhistory := (reach_inv (adminProgs_wp sha256 calls) hany).history
  obtain ⟨hmirrored, -, hreplays⟩ := history_mirrored hhistory hm hn
  exact ⟨hmirrored, hreplays⟩

/-! A token is revoked as soon as it is issued, while a dead letter is sent back. -/

def operatorCalls : Client → AdminCall
  | .first => .issueToken "key" "secret" "tenant" "label" "ann" none
  | .second => .revokeToken "key" "bob"
  | .third => .replayDeadLetter 7 "bob"

def deadUser : User := { newUser "ann" with id := someUuid.text }

def oneDead : Db := { Db.empty with deliveries := [⟨7, 0, "tenant", .userCreated, some someUuid,
  .user ⟨.userCreated, 0, someUuid.text, none, deadUser⟩, .deadLetter, 9, 0, none, none⟩] }

def operatorSteps (i : Client) (n : Nat) : List (Event Client Env DbError) :=
  List.replicate n (.run i ⟨someUuid, 1⟩ 0)

/-- The issue commits first; the other two overlap. -/
def overlapping : List (Event Client Env DbError) :=
  operatorSteps .first 5 ++ operatorSteps .second 1 ++ operatorSteps .third 1 ++
    [.wait .second, .wait .third] ++ operatorSteps .second 4 ++ operatorSteps .third 4

theorem admin_trail_mirrors_overlapping :
    ∃ st : Shared Stmt.Rows DbError Write Env (Except StoreError Unit) Client, st.log.length = 3 ∧
      replays plainText 7 oneDead st.log = 1 ∧
      AdminMirrored ((engine plainText).current oneDead st.log) ∧
      ∀ id, ((engine plainText).current oneDead st.log).adminEntries .webhookReplay (toString id) =
        oneDead.adminEntries .webhookReplay (toString id) + replays plainText id oneDead st.log := by
  obtain ⟨st, hst, hfacts⟩ : ∃ st : Shared Stmt.Rows DbError Write Env (Except StoreError Unit) Client,
      (engine plainText).steps oneDead (fun _ _ => True)
        (.start (adminProgs (fun _ => []) operatorCalls)) overlapping = some st ∧
        (st.log.length, replays plainText 7 oneDead st.log) = (3, 1) :=
    Option.map_eq_some_iff.mp rfl
  obtain ⟨hlength, hreplays⟩ := Prod.mk.inj hfacts
  have hempty : AdminMirrored oneDead :=
    ⟨fun _ => rfl, fun _ => rfl, fun _ => rfl, fun _ => rfl, fun _ _ => rfl⟩
  exact ⟨st, hlength, hreplays,
    admin_trail_mirrors (reach_steps .start hst) hempty (List.nodup_singleton _)⟩

end Scimage.Store
