import Scimage.Lib.Discipline
import Scimage.Scim.RequestLog
import Scimage.Store.AdminTrail
import Scimage.Store.Unique

/-! The whole server: requests served and operators' calls run side by side on one database. -/
namespace Scimage.Scim

open Txn Engine
open Store (Mutation AdminCall Db Write Env DbError Postgres Stmt engine AuditRecord)
open Webhook (bytes)

/-! ### Programs -/

/-- `requireToken`, then the limiter, then the routes. -/
def Chain.serveRequest (s : Chain) (r : Incoming) : Handling Response :=
  s.requireToken (s.throttle (s.route r)) r.web

/-- What one goroutine of the server, or one operator, does. -/
inductive Work where
  | request (r : Incoming)
  | operate (c : AdminCall)

/-- The answer to a request; an operator's call has none. -/
def Work.prog (s : Chain) (sha256 : String → List UInt8) :
    Work → Prog Stmt.Rows DbError (Option Response)
  | .request r => (s.serveRequest r).run >>= fun x =>
      pure (some (match x with | .ok resp => resp | .error resp => resp))
  | .operate c => (c.call sha256).run >>= fun _ => pure none

/-! ### What they may commit -/

/-- Statements that a request or a call runs on a connection of its own: it looks something up, or
records the last use of a token. -/
def Looked : Stmt → Prop
  | .selectUser .. | .countUsers .. | .listUsers .. => True
  | .selectGroup .. | .selectMembers .. | .selectMembersOf .. => True
  | .countGroups .. | .listGroups .. => True
  | .selectToken .. | .selectConsoleToken .. | .touchToken .. | .listAttributes .. => True
  | _ => False

/-- The tenant of the path is that of the caller's token. -/
def OwnTenant (m : Mutation) : Prop := m.caller.tenantID ≠ "" → m.tenantID = m.caller.tenantID

/-- A mutation with its records, or an operator's change with its entry. -/
def Served (s : Store) (es : List (Txn.Entry Stmt.Rows)) : Prop :=
  (∃ m : Mutation, OwnTenant m ∧ m.History s es) ∨ Store.Operated es

abbrev serving (s : Store) : Discipline Stmt.Rows := ⟨Served s, Looked, Store.Denied⟩

theorem mutations_within (s : Store) {m : Mutation} (hm : OwnTenant m) :
    (Store.mutations (m.History s)).Within (serving s) :=
  ⟨fun _ h => Or.inl ⟨m, hm, h⟩, fun _ h => h.elim, fun _ h => h⟩

theorem operators_within (s : Store) : Store.operators.Within (serving s) := by
  refine ⟨fun _ h => Or.inr h, fun t ht => ?_, fun _ h => h.elim⟩
  cases t <;> trivial

/-! ### Handlers keep to it -/

/-- A call or handling that only looks things up. -/
structure Reads {ε α : Type} (c : ExceptT ε (Prog Stmt.Rows DbError) α) : Prop where
  looks : Looks Looked c.run

/-- A handling that ends with its transaction closed. -/
structure Closes {α : Type} (s : Store) (c : Handling α) : Prop where
  ends : wp (serving s) c.run (fun _ st => ∀ h, st ≠ .opened h) .idle

section Rules

variable {ε α β : Type} {s : Store}

theorem reads_pure (a : α) : Reads (pure a : ExceptT ε (Prog Stmt.Rows DbError) α) := ⟨trivial⟩

theorem reads_throw (e : ε) : Reads (throw e : ExceptT ε (Prog Stmt.Rows DbError) α) := ⟨trivial⟩

theorem reads_ofExcept (x : Except Response α) : Reads (ofExcept x : Handling α) := by
  cases x with
  | error e => exact reads_throw e
  | ok a => exact reads_pure a

theorem reads_bind {c : ExceptT ε (Prog Stmt.Rows DbError) α}
    {f : α → ExceptT ε (Prog Stmt.Rows DbError) β} (hc : Reads c) (hf : ∀ a, Reads (f a)) :
    Reads (c >>= f) := by
  constructor
  rw [ExceptT.run_bind]
  refine looks_bind hc.looks ?_
  rintro (e | a)
  · trivial
  · exact (hf a).looks

theorem reads_ask {t : Stmt} (ht : Looked t) : Reads (Store.Querier.pool.ask t) :=
  ⟨ht, fun _ => trivial⟩

theorem reads_exec {t : Stmt} (ht : Looked t) : Reads (Store.Querier.pool.exec t) := by
  refine reads_bind (reads_ask ht) fun x => ?_
  cases x with
  | error e => exact reads_throw _
  | ok rows => exact reads_pure rows

theorem reads_refusedWith {c : Store.Call α} (hc : Reads c) (reply : Store.StoreError → Response) :
    Reads (refusedWith reply c) :=
  ⟨looks_bind hc.looks fun _ => trivial⟩

theorem reads_tried {c : Store.Call α} (hc : Reads c) : Reads (tried c) :=
  ⟨looks_bind hc.looks fun _ => trivial⟩

theorem Reads.closes {c : Handling α} (hc : Reads c) : Closes s c := by
  constructor
  refine wp_mono ?_ (Looks.wp (D := serving s) hc.looks .idle)
  rintro a st rfl h hh
  cases hh

theorem closes_bind {c : Handling α} {f : α → Handling β} (hc : Reads c) (hf : ∀ a, Closes s (f a)) :
    Closes s (c >>= f) := by
  constructor
  rw [ExceptT.run_bind, wp_bind]
  refine wp_mono ?_ (Looks.wp (D := serving s) hc.looks .idle)
  rintro (e | a) st rfl
  · intro h hh
    cases hh
  · exact (hf a).ends

/-- A handling that ends with a mutation, whose result it only shows. -/
theorem closes_mutation {c : Store.Call α} {m : Mutation} (hm : OwnTenant m)
    (hc : wp (Store.mutations (m.History s)) c.run Store.Settled .idle)
    (reply : Store.StoreError → Response) (f : α → β) :
    Closes s (refusedWith reply c >>= fun a => pure (f a)) := by
  constructor
  unfold refusedWith
  rw [ExceptT.run_bind, ExceptT.run_mk, wp_bind, wp_bind]
  refine wp_mono ?_ (wp_within (mutations_within s hm) hc)
  rintro (e | a) st hst h hh
  · rcases hst with rfl | rfl | rfl <;> cases hh
  · obtain ⟨l, rfl⟩ := hst
    cases hh

end Rules

/-! ### Look-ups -/

theorem reads_getUser (tenantID id : String) : Reads (Store.getUser tenantID id) := by
  refine reads_bind (reads_ask trivial) fun x => ?_
  split
  · split <;> exact ⟨trivial⟩
  · exact ⟨trivial⟩

theorem reads_getGroup (tenantID id : String) : Reads (Store.getGroup tenantID id) := by
  refine reads_bind (reads_ask trivial) fun x => ?_
  split
  · split <;> exact ⟨trivial⟩
  · exact reads_bind (reads_exec trivial) fun _ => ⟨trivial⟩

theorem reads_listUsers (tenantID : String) (limit offset : Int) (f : Store.UserFilter) :
    Reads (Store.listUsers tenantID limit offset f) := by
  unfold Store.listUsers
  split
  · exact ⟨trivial⟩
  · exact reads_bind (reads_exec trivial) fun _ => reads_bind (reads_exec trivial) fun _ => ⟨trivial⟩

theorem reads_listGroups (tenantID : String) (limit offset : Int) (f : Store.GroupFilter) :
    Reads (Store.listGroups tenantID limit offset f) := by
  unfold Store.listGroups
  split
  · exact ⟨trivial⟩
  · refine reads_bind (reads_exec trivial) fun _ => reads_bind (reads_exec trivial) fun gs => ?_
    refine reads_bind ?_ fun _ => ⟨trivial⟩
    unfold Store.attachMembers
    split
    · exact ⟨trivial⟩
    · exact reads_bind (reads_exec trivial) fun _ => ⟨trivial⟩

theorem reads_listAttributes (tenantID : String) : Reads (Store.listAttributes tenantID) :=
  reads_exec trivial

theorem reads_getTokenByKeyID (keyID : String) : Reads (Store.getTokenByKeyID keyID) := by
  refine reads_bind (reads_ask trivial) fun x => ?_
  split
  · split <;> exact ⟨trivial⟩
  · exact ⟨trivial⟩

theorem reads_touchToken (keyID : String) : Reads (Store.touchToken keyID) := reads_exec trivial

theorem reads_registered (h : Handler) (r : Request) : Reads (h.registered r) := by
  unfold Handler.registered
  split
  · exact reads_bind (reads_refusedWith (reads_listAttributes _) _) fun _ => ⟨trivial⟩
  · exact ⟨trivial⟩

/-! ### Endpoints -/

section Endpoints

variable {h : Handler} {r : Request}

/-- A request whose path and token name one tenant. -/
def Request.Own (r : Request) : Prop := r.caller.tenantID ≠ "" → r.tenantID = r.caller.tenantID

theorem closes_mutate (hr : r.Own) (resource : Store.Resource) (m : Method) :
    Closes h.store (h.mutate r resource m) := by
  cases resource with
  | user =>
    cases m with
    | post =>
      refine closes_bind (reads_ofExcept _) fun x => closes_bind (reads_registered h r) fun reg => ?_
      exact closes_mutation (m := .createUser r.tenantID _ r.caller) hr
        (Store.createUser_wp fun ch => .createUser ch) _ _
    | put =>
      refine closes_bind (reads_ofExcept _) fun x => closes_bind (reads_ofExcept _) fun _ =>
        closes_bind (reads_registered h r) fun reg => ?_
      exact closes_mutation (m := .updateUser r.tenantID r.id _ r.caller) hr
        (Store.updateUser_wp fun ch => .updateUser ch) _ _
    | patch =>
      refine closes_bind (reads_ofExcept _) fun p =>
        closes_bind (reads_refusedWith (reads_getUser _ _) _) fun u =>
        closes_bind (reads_registered h r) fun reg => closes_bind (reads_ofExcept _) fun su => ?_
      exact closes_mutation (m := .updateUser r.tenantID r.id _ r.caller) hr
        (Store.updateUser_wp fun ch => .updateUser ch) _ _
    | delete =>
      exact closes_mutation (m := .deactivateUser r.tenantID r.id r.caller) hr
        (Store.deactivateUser_wp fun ch => .deactivateUser ch) _ _
  | group =>
    cases m with
    | post =>
      refine closes_bind (reads_ofExcept _) fun g => ?_
      exact closes_mutation (m := .createGroup r.tenantID _ r.caller) hr
        (Store.createGroup_wp fun c n ms => .createGroup c n ms) _ _
    | put =>
      refine closes_bind (reads_ofExcept _) fun g => closes_bind (reads_ofExcept _) fun _ => ?_
      exact closes_mutation (m := .updateGroup r.tenantID r.id _ r.caller) hr
        (Store.updateGroup_wp fun b ms a n nms => .updateGroup b ms a n nms) _ _
    | patch =>
      refine closes_bind (reads_ofExcept _) fun p =>
        closes_bind (reads_refusedWith (reads_getGroup _ _) _) fun g =>
        closes_bind (reads_ofExcept _) fun sg => ?_
      exact closes_mutation (m := .updateGroup r.tenantID r.id _ r.caller) hr
        (Store.updateGroup_wp fun b ms a n nms => .updateGroup b ms a n nms) _ _
    | delete =>
      exact closes_mutation (m := .deleteGroup r.tenantID r.id r.caller) hr
        (Store.deleteGroup_wp fun b ms n t => .deleteGroup b ms n t) _ _

theorem reads_list (r : Request) (q : ListQuery) : Reads (h.list r q) := by
  unfold Handler.list
  refine reads_bind (reads_ofExcept _) fun f => ?_
  obtain ⟨startIndex, count⟩ := pageParams q
  exact reads_bind (reads_refusedWith (reads_listUsers ..) _) fun _ => reads_pure _

theorem reads_listedGroups (r : Request) (q : ListQuery) : Reads (h.listGroups r q) := by
  unfold Handler.listGroups
  refine reads_bind (reads_ofExcept _) fun f => ?_
  obtain ⟨startIndex, count⟩ := pageParams q
  exact reads_bind (reads_refusedWith (reads_listGroups ..) _) fun _ => reads_pure _

variable {s : Chain}

theorem closes_endpoint (e : Endpoint) (hr : r.Own) (i : Incoming) :
    Closes s.handler.store (s.endpoint e r i) := by
  cases e with
  | create => exact closes_mutate (r := r.withBody .user .post i.body) hr .user .post
  | replace => exact closes_mutate (r := r.withBody .user .put i.body) hr .user .put
  | patch => exact closes_mutate (r := r.withBody .user .patch i.body) hr .user .patch
  | createGroup => exact closes_mutate (r := r.withBody .group .post i.body) hr .group .post
  | replaceGroup => exact closes_mutate (r := r.withBody .group .put i.body) hr .group .put
  | patchGroup => exact closes_mutate (r := r.withBody .group .patch i.body) hr .group .patch
  | deactivate => exact closes_mutate hr .user .delete
  | deleteGroup => exact closes_mutate hr .group .delete
  | get =>
    exact (reads_bind (reads_refusedWith (reads_getUser _ _) _) fun _ => reads_pure _).closes
  | getGroup =>
    exact (reads_bind (reads_refusedWith (reads_getGroup _ _) _) fun _ => reads_pure _).closes
  | list =>
    exact (reads_bind (reads_list r i.query) fun page => reads_pure (writeJSON 200 page.json)).closes
  | listGroups =>
    exact (reads_bind (reads_listedGroups r i.query) fun page =>
      reads_pure (writeJSON 200 page.json)).closes
  | schemas =>
    refine Reads.closes (c := s.schemas r) ?_
    unfold Chain.schemas
    split
    · exact reads_bind (reads_refusedWith (reads_listAttributes _) _) fun _ => reads_pure _
    · exact ⟨trivial⟩
  | serviceProviderConfig | resourceTypes | methodNotAllowed | unknownResource =>
    exact Reads.closes ⟨trivial⟩

/-- The text of a tenant's id is read back from its bytes. -/
theorem textOf_bytes (t : String) : textOf (bytes t) = t := by
  have henc : bytes t = Utf8.encode t.toList := by
    conv_lhs => rw [← String.ofList_toList (s := t)]
    exact Webhook.bytes_ofList _
  rw [textOf, henc, Utf8.decode_encode, String.ofList_toList]

/-- A request goes on with an identity only when it is authenticated. -/
theorem identify_spec (r : WebRequest) :
    wp (serving s.handler.store) (s.identify r).run (fun x st => st = .idle ∧ ∀ id, x = .ok (some id) →
      ∃ now tok, authenticate s.sha256 now (fun _ => tok) r = some id) .idle := by
  unfold Chain.identify
  rw [ExceptT.run_bind, wp_bind]
  have htok : Reads (tokenOf r.authorization) := by
    unfold tokenOf
    split
    · exact ⟨trivial⟩
    · split
      · exact reads_tried (reads_getTokenByKeyID _)
      · exact ⟨trivial⟩
  refine wp_mono ?_ (Looks.wp (D := serving s.handler.store) htok.looks .idle)
  rintro (e | tok) st rfl
  · exact ⟨rfl, fun id h => by cases h⟩
  · exact fun now => ⟨rfl, fun id h => ⟨now, tok, Except.ok.inj h⟩⟩

theorem closes_route (i : Incoming) {id : Identity} {now : Store.Time} {tok : Option Store.TokenRow}
    (hauth : authenticate s.sha256 now (fun _ => tok) i.web = some id) :
    Closes s.handler.store (s.route i id) := by
  unfold Chain.route
  cases hmux : mux s.unread i.web with
  | none => exact Reads.closes ⟨trivial⟩
  | some served =>
    obtain ⟨e, values⟩ := served
    by_cases he : e = .unknownResource
    · subst he
      exact Reads.closes ⟨trivial⟩
    · refine closes_endpoint e (fun hne => ?_) i
      obtain ⟨keyID, tok', htok, hid, -⟩ := authenticate_some hauth
      have hnamed : ∀ keyID t, (fun _ : Bytes => tok) keyID = some t → t.tenantID ≠ "" := by
        intro k t ht
        obtain rfl := Option.some.inj (htok.symm.trans ht)
        rw [hid] at hne
        exact hne
      have hrouted := authenticated_tenant_is_routed s.unread s.sha256 now (fun _ => tok) hnamed i.web
        hmux he hauth
      simp only [Incoming.request, hrouted.2.1, textOf_bytes]

theorem closes_serveRequest (i : Incoming) : Closes s.handler.store (s.serveRequest i) := by
  have hrefused : Closes s.handler.store (return unauthorized) := Reads.closes (reads_pure unauthorized)
  constructor
  unfold Chain.serveRequest Chain.requireToken
  rw [ExceptT.run_bind, wp_bind]
  refine wp_mono ?_ (identify_spec i.web)
  rintro (e | id) st ⟨rfl, hid⟩
  · intro h hh
    cases hh
  · cases id with
    | none => exact hrefused.ends
    | some id =>
      obtain ⟨now, tok, hauth⟩ := hid id rfl
      refine (closes_bind (reads_tried (reads_touchToken _)) fun _ => ?_).ends
      unfold Chain.throttle
      split
      · exact closes_route i hauth
      · exact Reads.closes (reads_pure tooManyRequests)

end Endpoints

/-! ### Runs of the server -/

abbrev Server (ι : Type) := Shared Stmt.Rows DbError Write Env (Option Response) ι

def serverProgs {ι : Type} (s : Chain) (sha256 : String → List UInt8) (works : ι → Work) (i : ι) :
    Prog Stmt.Rows DbError (Option Response) :=
  (works i).prog s sha256

/-- What the committed transactions of a run have left in the database. -/
def Server.db {ι : Type} (pg : Postgres) (st : Server ι) : Db := (engine pg).current .empty st.log

abbrev ServerLog (pg : Postgres) (s : Store) (R : Condition Stmt.Rows Write Env)
    (log : List (Commit Stmt.Rows Write Env)) : Prop :=
  (engine pg).History (serving s) .empty R log

theorem Work.closes (s : Chain) (sha256 : String → List UInt8) (w : Work) :
    wp (serving s.handler.store) (w.prog s sha256) (fun _ st => ∀ h, st ≠ .opened h) .idle := by
  cases w with
  | request r =>
    refine wp_bind.mpr (wp_mono ?_ (closes_serveRequest (s := s) r).ends)
    exact fun x st hst => hst
  | operate c =>
    refine wp_bind.mpr (wp_mono ?_ (wp_within (operators_within s.handler.store) (c.call_ends sha256)))
    rintro (e | a) st hst <;> exact hst

/-- Whatever runs side by side, and whatever fails, the commits are mutations with their records,
operators' changes with their entries, look-ups and notes of refusals. -/
theorem reach_served {ι : Type} [DecidableEq ι] [Fintype ι] {pg : Postgres} {s : Chain}
    {sha256 : String → List UInt8} {works : ι → Work} {R : Condition Stmt.Rows Write Env} {st : Server ι}
    (h : (engine pg).Reach .empty (serverProgs s sha256 works) ((engine pg).Meets R) st) :
    ServerLog pg s.handler.store R st.log :=
  (reach_inv (fun i => (works i).closes s sha256) h).history

/-- However requests and operators' calls interleave, no two users and no two groups of a tenant ever
share a name in whatever case, or an external id. -/
theorem served_names_distinct {ι : Type} [DecidableEq ι] [Fintype ι] {pg : Postgres} {s : Chain}
    {sha256 : String → List UInt8} {works : ι → Work} {st : Server ι}
    (h : (engine pg).Reach .empty (serverProgs s sha256 works) (fun _ _ => True) st) :
    Store.NamesDistinct pg (st.db pg) := by
  have hall : (engine pg).Reach .empty (serverProgs s sha256 works)
      ((engine pg).Meets fun _ _ _ => True) st :=
    h.mono fun _ e _ => by cases e <;> simp [Meets]
  exact Store.history_namesDistinct (reach_served hall)

/-! ### A token, a user and a group -/

def bearerKey : Bytes := bytes "Bearer scimage_key_s"

def postAnn : Incoming :=
  ⟨⟨"POST", bytes "/scim/v2/tenant/Users", bearerKey⟩, ⟨"", "", ""⟩, "", "https://host", "", sameOrders,
    bytes ("\x7b\"schemas\":[\"" ++ userSchema ++ "\"],\"userName\":\"ann\"\x7d")⟩

def postStaff : Incoming :=
  ⟨⟨"POST", bytes "/scim/v2/tenant/Groups", bearerKey⟩, ⟨"", "", ""⟩, "", "https://host", "", sameOrders,
    bytes ("\x7b\"schemas\":[\"" ++ groupSchema ++ "\"],\"displayName\":\"staff\",\"members\":[\x7b\"value\":\"" ++
      Store.someUuid.text ++ "\"\x7d]\x7d")⟩

/-- An operator issues a token; two requests bear it. -/
def staffWorks : Store.Client → Work
  | .first => .operate (.issueToken "key" "s" "tenant" "" "" none)
  | .second => .request postAnn
  | .third => .request postStaff

def workSteps (i : Store.Client) (n : Nat) : List (Txn.Event Store.Client Env DbError) :=
  List.replicate n (.run i ⟨Store.someUuid, 1⟩ 0)

/-- The group's request arrives before the user is committed. -/
def staffSteps : List (Txn.Event Store.Client Env DbError) :=
  workSteps .first 5 ++ workSteps .second 4 ++ workSteps .third 3 ++ workSteps .second 3 ++
    workSteps .third 7

theorem staff_run : ∃ st : Server Store.Client, (engine Store.plainText).steps .empty (fun _ _ => True)
      (.start (serverProgs plainChain bytes staffWorks)) staffSteps = some st ∧
    (st.log.length, (st.db Store.plainText).users.rows.length,
      (st.db Store.plainText).members.rows.length) = (7, 1, 1) :=
  Option.map_eq_some_iff.mp rfl

theorem served_names_distinct_staff : ∃ st : Server Store.Client, st.log.length = 7 ∧
    Store.NamesDistinct Store.plainText (st.db Store.plainText) := by
  obtain ⟨st, hst, hfacts⟩ := staff_run
  exact ⟨st, (Prod.mk.inj hfacts).1, served_names_distinct (reach_steps .start hst)⟩

end Scimage.Scim
