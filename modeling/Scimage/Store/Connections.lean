import Scimage.Store.Admin
import Scimage.Store.Mutation
import Scimage.Lib.Pool

/-! How the calls of the store share the connections of their pool. -/
namespace Scimage.Store

open Txn Prog

/-- The calls of the store. Those that are not spelled out here run one statement outside any
transaction, or, as `CreateTenant`, plain statements in one. -/
inductive Operation where
  | mutation (m : Mutation)
  | getUser (tenantID id : String)
  | listUsers (tenantID : String) (limit offset : Int) (f : UserFilter)
  | getGroup (tenantID id : String)
  | listGroups (tenantID : String) (limit offset : Int) (f : GroupFilter)
  | issueToken (sha256 : String → List UInt8) (keyID secret tenantID label createdBy : String)
      (expiresAt : Option Time)
  | getTokenByKeyID (keyID : String)
  | revokeToken (keyID actor : String)
  | issueConsoleToken (sha256 : String → List UInt8) (keyID secret label createdBy : String)
      (expiresAt : Option Time)
  | getConsoleTokenByKeyID (keyID : String)
  | revokeConsoleToken (keyID actor : String)
  | registerAttribute (tenantID name typ actor : String)
  | unregisterAttribute (tenantID name actor : String)
  | replayDeadLetter (id : Nat) (actor : String)
  | statement (s : Stmt)
  | transaction (ss : List Stmt)

def runAll : List Stmt → Call Unit
  | [] => pure ()
  | s :: ss => do
    let _ ← Querier.tx.exec s
    runAll ss

def operate (s : Store) : Operation → Call Unit
  | .mutation m => m.call s
  | .getUser tenantID id => do let _ ← getUser tenantID id
  | .listUsers tenantID limit offset f => do let _ ← listUsers tenantID limit offset f
  | .getGroup tenantID id => do let _ ← getGroup tenantID id
  | .listGroups tenantID limit offset f => do let _ ← listGroups tenantID limit offset f
  | .issueToken sha256 keyID secret tenantID label createdBy expiresAt => do
    let _ ← issueToken sha256 keyID secret tenantID label createdBy expiresAt
  | .getTokenByKeyID keyID => do let _ ← getTokenByKeyID keyID
  | .revokeToken keyID actor => revokeToken keyID actor
  | .issueConsoleToken sha256 keyID secret label createdBy expiresAt => do
    let _ ← issueConsoleToken sha256 keyID secret label createdBy expiresAt
  | .getConsoleTokenByKeyID keyID => do let _ ← getConsoleTokenByKeyID keyID
  | .revokeConsoleToken keyID actor => revokeConsoleToken keyID actor
  | .registerAttribute tenantID name typ actor => do
    let _ ← registerAttribute tenantID name typ actor
  | .unregisterAttribute tenantID name actor => unregisterAttribute tenantID name actor
  | .replayDeadLetter id actor => replayDeadLetter id actor
  | .statement s => do let _ ← Querier.pool.exec s
  | .transaction ss => inTx do
    runAll ss
    commit

/-! ### Every call gives back what it takes -/

section Plain

variable {α β : Type} {q : Querier} {stmt : Stmt} {c : Call α}

theorem call_bind_plain {f : α → Call β} (hc : c.run.Plain) (hf : ∀ a, (f a).run.Plain) :
    (c >>= f).run.Plain := by
  rw [ExceptT.run_bind]
  refine plain_bind hc ?_
  rintro (e | a)
  · exact plain_done _
  · exact hf a

theorem pure_plain (a : α) : (pure a : Call α).run.Plain := plain_done _

theorem throw_plain (e : StoreError) : (throw e : Call α).run.Plain := plain_done _

theorem orFail_plain (r : Except DbError α) : (orFail r).run.Plain := by
  cases r <;> exact plain_done _

theorem ask_plain : (q.ask stmt).run.Plain := by
  cases q <;> exact plain_call (by simp) fun _ => plain_done _

theorem exec_plain : (q.exec stmt).run.Plain :=
  call_bind_plain ask_plain fun _ => orFail_plain _

theorem commit_plain : commit.run.Plain :=
  call_bind_plain (plain_call (by simp) fun _ => plain_done _) fun _ => orFail_plain _

theorem processClock_plain : processClock.run.Plain := plain_call (by simp) fun _ => plain_done _

theorem attempt_plain (hc : c.run.Plain) : (attempt c).run.Plain :=
  plain_bind hc fun _ => plain_done _

theorem auditRefusal_plain {rec : AuditRecord} {resource : Resource} {action : Action}
    {targetID detail : String} : (auditRefusal rec resource action targetID detail).run.Plain :=
  call_bind_plain ask_plain fun _ => pure_plain _

theorem insertAudit_plain {rec : AuditRecord} {resource : Resource} {action : Action}
    {targetID detail : String} {result : Outcome} {before after : Option Image} :
    (insertAudit q rec resource action targetID result detail before after).run.Plain :=
  exec_plain

theorem enqueueChange_plain {s : Store} {tenantID targetID : String} {eventType : EventType}
    {before : Option User} {after : User} :
    (s.enqueueChange q tenantID eventType targetID before after).run.Plain := by
  unfold enqueueChange
  split
  · exact pure_plain _
  · exact exec_plain

theorem enqueueGroupChange_plain {s : Store} {tenantID targetID : String}
    {eventType : EventType} {before after : Option Group} :
    (s.enqueueGroupChange q tenantID eventType targetID before after).run.Plain := by
  unfold enqueueGroupChange
  split
  · exact pure_plain _
  · exact call_bind_plain processClock_plain fun _ => exec_plain

theorem inTx_closes (hc : c.run.Plain) : (inTx c).run.Closes false :=
  closes_begin (closes_rollback hc true) fun _ => closes_done _

theorem discard_closes (hc : c.run.Closes false) : (do let _ ← c : Call Unit).run.Closes false := by
  rw [ExceptT.run_bind]
  refine closes_bind hc ?_
  rintro (e | a) <;> exact closes_done _

/-- A refusal is recorded, and the call ends with its error. -/
theorem refused_plain {rec : AuditRecord} {resource : Resource} {action : Action}
    {targetID detail : String} {e : StoreError} :
    (do auditRefusal rec resource action targetID detail; throw e : Call α).run.Plain :=
  call_bind_plain auditRefusal_plain fun _ => throw_plain e

theorem recorded_user_plain {s : Store} {tenantID id : String} {rec : AuditRecord}
    {action : Action} {eventType : EventType} {b a : Option Image} {before : Option User}
    {after : User} {x : α} :
    (do insertAudit .tx rec .user action id .success "" b a
        s.enqueueChange .tx tenantID eventType id before after
        commit
        return x : Call α).run.Plain :=
  call_bind_plain insertAudit_plain fun _ => call_bind_plain enqueueChange_plain fun _ =>
    call_bind_plain commit_plain fun _ => pure_plain x

theorem recorded_group_plain {s : Store} {tenantID id : String} {rec : AuditRecord}
    {action : Action} {eventType : EventType} {b a : Option Image} {before after : Option Group}
    {x : α} :
    (do insertAudit .tx rec .group action id .success "" b a
        s.enqueueGroupChange .tx tenantID eventType id before after
        commit
        return x : Call α).run.Plain :=
  call_bind_plain insertAudit_plain fun _ => call_bind_plain enqueueGroupChange_plain fun _ =>
    call_bind_plain commit_plain fun _ => pure_plain x

theorem ite_plain {p : Prop} [Decidable p] {c d : Call α} (hc : c.run.Plain) (hd : d.run.Plain) :
    (if p then c else d).run.Plain := by
  split
  · exact hc
  · exact hd

theorem ite_closes {p : Prop} [Decidable p] {c d : Call α} (hc : c.run.Closes false)
    (hd : d.run.Closes false) : (if p then c else d).run.Closes false := by
  split
  · exact hc
  · exact hd

end Plain

variable {s : Store} {tenantID id : String} {u : User} {g : Group} {rec : AuditRecord}

theorem createUser_closes : (s.createUser tenantID u rec).run.Closes false := by
  refine inTx_closes (call_bind_plain ask_plain ?_)
  rintro (e | created)
  · exact ite_plain refused_plain (throw_plain _)
  · exact recorded_user_plain

theorem updateUser_closes : (s.updateUser tenantID id u rec).run.Closes false := by
  refine inTx_closes (call_bind_plain ask_plain fun r => ?_)
  cases scanRow r with
  | error e => exact ite_plain refused_plain (ite_plain refused_plain (throw_plain _))
  | ok change => exact recorded_user_plain

theorem deactivateUser_closes : (s.deactivateUser tenantID id rec).run.Closes false := by
  refine inTx_closes (call_bind_plain ask_plain fun r => ?_)
  cases scanRow r with
  | error e => exact ite_plain refused_plain (throw_plain _)
  | ok change => exact recorded_user_plain

theorem replaceMembers_plain {memberIDs : List String} :
    (replaceMembers tenantID id memberIDs).run.Plain := by
  refine call_bind_plain exec_plain fun _ => ite_plain (pure_plain _) ?_
  refine call_bind_plain ask_plain ?_
  rintro (e | n)
  · exact ite_plain (throw_plain _) (throw_plain _)
  · exact ite_plain (throw_plain _) (pure_plain _)

theorem getGroupTx_plain : (getGroupTx tenantID id).run.Plain := by
  refine call_bind_plain ask_plain fun r => ?_
  cases scanRow r with
  | error e => exact ite_plain (throw_plain _) (throw_plain _)
  | ok g => exact call_bind_plain exec_plain fun _ => pure_plain _

theorem createGroup_closes : (s.createGroup tenantID g rec).run.Closes false := by
  refine inTx_closes (call_bind_plain ask_plain ?_)
  rintro (e | created)
  · exact ite_plain refused_plain (throw_plain _)
  · refine call_bind_plain (attempt_plain replaceMembers_plain) ?_
    rintro (e | _)
    · exact ite_plain refused_plain (throw_plain _)
    · exact call_bind_plain exec_plain fun _ => recorded_group_plain

theorem updateGroup_closes : (s.updateGroup tenantID id g rec).run.Closes false := by
  refine inTx_closes (call_bind_plain (attempt_plain getGroupTx_plain) ?_)
  rintro (e | before)
  · exact ite_plain refused_plain (throw_plain _)
  · refine call_bind_plain ask_plain fun r => ?_
    cases scanRow r with
    | error e => exact ite_plain refused_plain (throw_plain _)
    | ok after =>
      refine call_bind_plain (attempt_plain replaceMembers_plain) ?_
      rintro (e | _)
      · exact ite_plain refused_plain (throw_plain _)
      · exact call_bind_plain exec_plain fun _ => recorded_group_plain

theorem deleteGroup_closes : (s.deleteGroup tenantID id rec).run.Closes false := by
  refine inTx_closes (call_bind_plain (attempt_plain getGroupTx_plain) ?_)
  rintro (e | before)
  · exact ite_plain refused_plain (throw_plain _)
  · exact call_bind_plain exec_plain fun _ => recorded_group_plain

theorem mutation_closes (m : Mutation) : (m.call s).run.Closes false := by
  cases m with
  | createUser t u rec => exact discard_closes createUser_closes
  | updateUser t id u rec => exact discard_closes updateUser_closes
  | deactivateUser t id rec => exact discard_closes deactivateUser_closes
  | createGroup t g rec => exact discard_closes createGroup_closes
  | updateGroup t id g rec => exact discard_closes updateGroup_closes
  | deleteGroup t id rec => exact discard_closes deleteGroup_closes

theorem getTokenByKeyID_plain {keyID : String} : (getTokenByKeyID keyID).run.Plain := by
  refine call_bind_plain ask_plain fun r => ?_
  cases scanRow r with
  | error e => exact ite_plain (throw_plain _) (throw_plain _)
  | ok t => exact pure_plain t

theorem getConsoleTokenByKeyID_plain {keyID : String} :
    (getConsoleTokenByKeyID keyID).run.Plain := by
  refine call_bind_plain ask_plain fun r => ?_
  cases scanRow r with
  | error e => exact ite_plain (throw_plain _) (throw_plain _)
  | ok t => exact pure_plain t

theorem getUser_plain : (getUser tenantID id).run.Plain := by
  refine call_bind_plain ask_plain fun r => ?_
  cases scanRow r with
  | error e => exact ite_plain (throw_plain _) (throw_plain _)
  | ok u => exact pure_plain u

theorem getGroup_plain : (getGroup tenantID id).run.Plain := by
  refine call_bind_plain ask_plain fun r => ?_
  cases scanRow r with
  | error e => exact ite_plain (throw_plain _) (throw_plain _)
  | ok g => exact call_bind_plain exec_plain fun _ => pure_plain _

theorem runAll_plain (ss : List Stmt) : (runAll ss).run.Plain := by
  induction ss with
  | nil => exact pure_plain _
  | cons s ss ih => exact call_bind_plain exec_plain fun _ => ih

theorem registerAttribute_closes {name typ actor : String} :
    (registerAttribute tenantID name typ actor).run.Closes false := by
  unfold registerAttribute
  refine ite_closes (throw_plain _).closes (inTx_closes (call_bind_plain ask_plain ?_))
  rintro (e | a)
  · exact ite_plain (throw_plain _) (throw_plain _)
  · exact call_bind_plain exec_plain fun _ => call_bind_plain commit_plain fun _ => pure_plain _

theorem unregisterAttribute_closes {name actor : String} :
    (unregisterAttribute tenantID name actor).run.Closes false := by
  unfold unregisterAttribute
  refine inTx_closes (call_bind_plain exec_plain fun n => ite_plain (throw_plain _) ?_)
  exact call_bind_plain exec_plain fun _ => commit_plain

/-- Every call of the store has one transaction at a time and ends it. -/
theorem operate_closes (o : Operation) : (s.operate o).run.Closes false := by
  cases o with
  | mutation m => exact mutation_closes m
  | getUser tenantID id =>
    exact discard_closes getUser_plain.closes
  | listUsers tenantID limit offset f =>
    refine discard_closes (ite_plain (throw_plain _) ?_).closes
    exact call_bind_plain exec_plain fun _ => call_bind_plain exec_plain fun _ => pure_plain _
  | getGroup tenantID id =>
    exact discard_closes getGroup_plain.closes
  | listGroups tenantID limit offset f =>
    refine discard_closes (ite_plain (throw_plain _) ?_).closes
    refine call_bind_plain exec_plain fun _ => call_bind_plain exec_plain fun _ => ?_
    refine call_bind_plain (ite_plain (pure_plain _) ?_) fun _ => pure_plain _
    exact call_bind_plain exec_plain fun _ => pure_plain _
  | issueToken sha256 keyID secret tenantID label createdBy expiresAt =>
    refine discard_closes (inTx_closes (call_bind_plain exec_plain fun _ => ?_))
    exact call_bind_plain exec_plain fun _ => call_bind_plain commit_plain fun _ => pure_plain _
  | getTokenByKeyID keyID => exact discard_closes getTokenByKeyID_plain.closes
  | revokeToken keyID actor =>
    refine inTx_closes (call_bind_plain ask_plain fun r => ?_)
    cases scanRow r with
    | error e =>
      refine ite_plain (throw_plain _) ?_
      exact call_bind_plain getTokenByKeyID_plain fun _ => pure_plain _
    | ok tenantID => exact call_bind_plain exec_plain fun _ => commit_plain
  | issueConsoleToken sha256 keyID secret label createdBy expiresAt =>
    refine discard_closes (inTx_closes (call_bind_plain exec_plain fun _ => ?_))
    exact call_bind_plain exec_plain fun _ => call_bind_plain commit_plain fun _ => pure_plain _
  | getConsoleTokenByKeyID keyID => exact discard_closes getConsoleTokenByKeyID_plain.closes
  | revokeConsoleToken keyID actor =>
    refine inTx_closes (call_bind_plain ask_plain fun r => ?_)
    cases scanRow r with
    | error e =>
      refine ite_plain (throw_plain _) ?_
      exact call_bind_plain getConsoleTokenByKeyID_plain fun _ => pure_plain _
    | ok keyID => exact call_bind_plain exec_plain fun _ => commit_plain
  | registerAttribute tenantID name typ actor => exact discard_closes registerAttribute_closes
  | unregisterAttribute tenantID name actor => exact unregisterAttribute_closes
  | replayDeadLetter id actor =>
    refine inTx_closes (call_bind_plain ask_plain fun r => ?_)
    cases scanRow r with
    | error e => exact ite_plain (throw_plain _) (throw_plain _)
    | ok replayed => exact call_bind_plain exec_plain fun _ => commit_plain
  | statement s => exact discard_closes exec_plain.closes
  | transaction ss =>
    exact inTx_closes (call_bind_plain (runAll_plain ss) fun _ => commit_plain)

/-! ### Calls that wait for each other -/

variable {ι : Type} [DecidableEq ι] [Fintype ι]

/-- What calls do with connections when the database answers them by `answers`. -/
def scripts (s : Store) (calls : ι → Operation) (answers : ι → Answers Stmt.Rows DbError)
    (i : ι) : List (Act Stmt) :=
  (s.operate (calls i)).run.script (answers i) false 0

omit [DecidableEq ι] [Fintype ι] in
theorem scripts_paired (s : Store) (calls : ι → Operation)
    (answers : ι → Answers Stmt.Rows DbError) (i : ι) :
    Pool.Paired 0 (scripts s calls answers i) :=
  (operate_closes (calls i)).paired (answers i) 0

/-- However the database answers, the calls cannot block each other for good exactly if fewer of
them take a second connection while they hold one than the pool has; and then all of them, the
refused ones included, can go on to their end. -/
theorem never_stuck_iff {N : Nat} (hN : 0 < N) (s : Store) (calls : ι → Operation)
    (answers : ι → Answers Stmt.Rows DbError) :
    ((∀ st, Pool.Reach N (scripts s calls answers) st → ¬ Pool.Stuck N st) ↔
      (Pool.nesting (scripts s calls answers)).card < N) ∧
    ((Pool.nesting (scripts s calls answers)).card < N →
      ∀ st, Pool.Reach N (scripts s calls answers) st →
        ∃ st', Pool.Run N st st' ∧ Pool.Finished st') := by
  have hpaired := scripts_paired s calls answers
  refine ⟨⟨fun h => ?_, fun hlt st hst => Pool.not_stuck hpaired hlt hst⟩, fun hlt st hst => ?_⟩
  · by_contra hge
    obtain ⟨st, hst, hstuck⟩ := Pool.exists_stuck hpaired hN (Nat.le_of_not_lt hge)
    exact h st hst hstuck
  · exact Pool.exists_finished fun t ht => Pool.not_stuck hpaired hlt (hst.trans ht)

/-! Four deactivations of a user that does not exist. -/

def deactivateAbsent (_ : Fin 4) : Operation :=
  .mutation (.deactivateUser "tenant" someUuid.text ⟨"key", "", "tenant"⟩)

def absent : Answers Stmt.Rows DbError
  | _, .begin | _, .commit => .ok ()
  | _, .tx (.deactivateUser ..) => .ok none
  | _, .pool (.insertAudit ..) => .ok ()
  | _, .tx _ | _, .pool _ => .error .lost
  | _, .rollback => ()
  | _, .now => 0

theorem four_refusals_finish : ∃ st : Pool.State (Fin 4) Stmt,
    Pool.Run 5 (Pool.start (scripts ⟨true⟩ deactivateAbsent fun _ => absent)) st ∧
      Pool.Finished st :=
  (never_stuck_iff (by decide) ⟨true⟩ deactivateAbsent fun _ => absent).2 (by decide) _ .refl

/-- With the four connections that are the least a pool is given, all four wait for ever. -/
theorem four_refusals_deadlock : ∃ st : Pool.State (Fin 4) Stmt,
    Pool.Reach 4 (scripts ⟨true⟩ deactivateAbsent fun _ => absent) st ∧ Pool.Stuck 4 st :=
  Pool.exists_stuck (scripts_paired _ _ _) (by decide) (by decide)

end Scimage.Store
