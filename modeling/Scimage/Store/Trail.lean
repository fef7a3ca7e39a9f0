import Scimage.Store.Footprint
import Scimage.Lib.Journal

/-! The audit trail as a journal of the directory. -/
namespace Scimage.Store

open Txn Engine

def auditJournal : Journal.Format AuditRow (Option Target) Image where
  key := AuditRow.target
  before := AuditRow.before
  after := AuditRow.after

def Db.successes (db : Db) : List AuditRow := db.auditLog.filter fun a => a.result = .success

/-- The successful entries of one user or group, in the order they were committed. -/
def Db.trail (db : Db) (t : Target) : List AuditRow :=
  auditJournal.linesOf (some t) db.successes

/-- The audit trail accounts for a user or group. -/
structure Mirrored (t : Target) (db : Db) : Prop where
  faithful : auditJournal.Faithful (some t) db.successes
  replay : auditJournal.replay db.successes (some t) = db.image t

theorem mirrored_empty (t : Target) : Mirrored t .empty :=
  ⟨.nil, by cases t <;> rfl⟩

section Logs

variable {pg : Postgres} {d : Db} {dir : List Write} {entry : AuditRow} {queue : List DeliveryRow}

theorem directory_logs (pg : Postgres) (d : Db) (h : ∀ w ∈ dir, w.directory) :
    ((engine pg).applyAll d dir).auditLog = d.auditLog ∧
      ((engine pg).applyAll d dir).deliveries = d.deliveries := by
  induction dir generalizing d with
  | nil => exact ⟨rfl, rfl⟩
  | cons w ws ih =>
    obtain ⟨ha, hd⟩ := ih ((engine pg).apply d w) fun x hx => h x (List.mem_cons_of_mem _ hx)
    rw [Engine.applyAll_cons, ha, hd]
    have hw := h w List.mem_cons_self
    cases w <;> first | exact ⟨rfl, rfl⟩ | exact hw.elim

theorem deliveries_logs (pg : Postgres) (d : Db) (queue : List DeliveryRow) :
    ((engine pg).applyAll d (queue.map .addDelivery)).auditLog = d.auditLog ∧
    ((engine pg).applyAll d (queue.map .addDelivery)).deliveries = d.deliveries ++ queue := by
  induction queue generalizing d with
  | nil => simp
  | cons x xs ih =>
    obtain ⟨ha, hd⟩ := ih ((engine pg).apply d (.addDelivery x))
    rw [List.map_cons, Engine.applyAll_cons, ha, hd]
    simp [engine, Write.apply]

end Logs

variable {pg : Postgres} {s : Store} {m : Mutation} {db : Db}
  {R : Condition Stmt.Rows Write Env} {log : List (Commit Stmt.Rows Write Env)}
  {now : Time} {hist : History} {t : Target} {dir : List Write} {entry : AuditRow}
  {queue : List DeliveryRow}

/-- A committed mutation appends its entry and its delivery, and nothing else to the logs. -/
theorem Wrote.logs (h : Wrote pg s m now (writesOf hist) t dir entry queue) (d : Db) :
    ((engine pg).view d hist).auditLog = d.auditLog ++ [entry] ∧
      ((engine pg).view d hist).deliveries = d.deliveries ++ queue := by
  rw [Engine.view, h.writes_eq, Engine.applyAll_append, Engine.applyAll_cons]
  obtain ⟨ha, hd⟩ := directory_logs pg d h.directory
  obtain ⟨ha', hd'⟩ := deliveries_logs pg
    ((engine pg).apply ((engine pg).applyAll d dir) (.addAudit entry)) queue
  rw [ha', hd']
  simp [engine, Write.apply, ← ha, ← hd]

theorem Wrote.successes (h : Wrote pg s m now (writesOf hist) t dir entry queue) (d : Db) :
    ((engine pg).view d hist).successes = d.successes ++ [entry] := by
  rw [Db.successes, (h.logs d).1, List.filter_append]
  simp [Db.successes, h.result]

/-- A committed mutation changes no image but that of its target. -/
theorem Wrote.image_ne (h : Wrote pg s m now (writesOf hist) t dir entry queue) (d : Db)
    {u : Target} (hu : u ≠ t) : ((engine pg).view d hist).image u = d.image u := by
  rw [h.view_image]
  exact image_other (h.apart u hu)

/-- A mutation keeps the trail of a user or group in step with it, if nobody disturbs its
writes of that row. -/
theorem Footprint.mirrored (h : Footprint pg s m db R log now hist t dir entry queue)
    {u : Target} (hR : ∀ l b x, R l b x → Undisturbed pg u.key l b x)
    (hm : Mirrored u ((engine pg).current db log)) :
    Mirrored u ((engine pg).view ((engine pg).current db log) hist) := by
  have hs := h.toWrote.successes ((engine pg).current db log)
  have hkey : auditJournal.key entry = some t := h.target
  by_cases hu : u = t
  · subst u
    obtain ⟨hne, hbefore⟩ := h.chained hR
    constructor
    · rw [hs]
      exact hm.faithful.snoc fun _ => hbefore.trans hm.replay.symm
    · rw [hs, Journal.Format.replay_snoc, hkey, Function.update_self]
      exact (h.after hne).symm
  · have hne : some u ≠ some t := fun he => hu (Option.some.inj he)
    constructor
    · rw [hs]
      exact hm.faithful.snoc fun he => (hne (he.symm.trans hkey)).elim
    · rw [hs, Journal.Format.replay_snoc, hkey, h.toWrote.image_ne _ hu, ← hm.replay]
      simp [Function.update, hne]

/-- A note of a refusal changes neither the directory nor its trail. -/
structure Denial (d d' : Db) : Prop where
  users : d'.users = d.users
  groups : d'.groups = d.groups
  members : d'.members = d.members
  deliveries : d'.deliveries = d.deliveries
  auditLog : ∃ a, a.result = .denied ∧ d'.auditLog = d.auditLog ++ [a]

theorem denied_denial {stmt : Stmt} {env : Env} {snap d : Db} {rows : stmt.Rows} {ws : List Write}
    (h : Denied stmt) (hx : (engine pg).exec now env stmt snap d = .ok (rows, ws)) :
    Denial d ((engine pg).applyAll d ws) := by
  cases stmt with
  | insertAudit rec resource action id result detail before after =>
    cases result with
    | success => exact h.elim
    | denied =>
      simp only [engine, exec, execInsertAudit] at hx
      split at hx
      · simp at hx
      · simp only [Except.ok.injEq, Prod.mk.injEq, true_and] at hx
        subst hx
        exact ⟨rfl, rfl, rfl, rfl, _, rfl, rfl⟩
  | _ => exact h.elim

theorem Denial.successes {d d' : Db} (h : Denial d d') : d'.successes = d.successes := by
  obtain ⟨a, ha, hlog⟩ := h.auditLog
  simp [Db.successes, hlog, ha]

theorem Denial.image {d d' : Db} (h : Denial d d') (t : Target) : d'.image t = d.image t := by
  cases t <;> simp [Db.image, Db.userImage, Db.groupImage, Db.membersOf, h.users, h.groups,
    h.members]

theorem Denial.mirrored {d d' : Db} (h : Denial d d') (hm : Mirrored t d) : Mirrored t d' := by
  constructor
  · rw [h.successes]
    exact hm.faithful
  · rw [h.successes, h.image, hm.replay]

end Scimage.Store
