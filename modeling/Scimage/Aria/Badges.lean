import Scimage.Aria.Briefing
import Mathlib.Data.List.Dedup

/-! The changes that the console's page shows beside a report. -/
namespace Scimage.Aria

open Store (Time AuditRow maxPageSize)

/-! ### Counting in the database -/

def inWindow (tenantID : String) (start stop : Time) (e : AuditRow) : Bool :=
  start ≤ e.loggedAt ∧ e.loggedAt < stop ∧ (tenantID = "" ∨ e.tenantID = tenantID)

/-- `count(*)` and `count(DISTINCT actor_token)`, from `start` on and before `stop`. -/
def auditWindowStats (log : List AuditRow) (tenantID : String) (start stop : Time) : Nat × Nat :=
  let entries := log.filter (inWindow tenantID start stop)
  (entries.length, (entries.map AuditRow.actorToken).dedup.length)

/-- The badge's colour; `new` has the label of its own. -/
inductive Delta where
  | new
  | up
  | down
  | flat
  deriving DecidableEq

/-- `computeDelta`, without the percentage. -/
def computeDelta (cur prev : Nat) : Option Delta :=
  if prev = 0 then if cur = 0 then none else some .new
  else if prev < cur then some .up
  else if cur < prev then some .down
  else some .flat

/-- The badges of a report: the counts of its window against those of the window before. -/
def attachARIADeltas (log : List AuditRow) (r : Report) : Option Delta × Option Delta :=
  let window := Webhook.sub r.now r.since
  if r.truncated ∨ window ≤ 0 then (none, none)
  else
    let cur := auditWindowStats log r.tenantID r.since r.now
    let prev := auditWindowStats log r.tenantID (r.since - window) r.since
    (computeDelta cur.1 prev.1, computeDelta cur.2 prev.2)

/-! ### The counts of a report -/

variable {log entries : List AuditRow} {tenantID : String} {since now : Time} {window : Int}
  {loc : Location}

/-- A report has a tally for each caller. -/
theorem callers_detect :
    (detect entries tenantID since now loc).callers = (entries.map AuditRow.actorToken).dedup.length := by
  have hperm : ((entries.foldl tallyEntry .empty).rows.map Tally.actor).Perm
      (entries.map AuditRow.actorToken).dedup := by
    rw [List.perm_ext_iff_of_nodup (entries.foldl tallyEntry .empty).nodup (List.nodup_dedup _)]
    intro actor
    rw [List.mem_dedup, List.mem_map, List.mem_map]
    constructor
    · rintro ⟨t, ht, rfl⟩
      obtain ⟨e, he⟩ := List.exists_mem_of_ne_nil _ (mem_tallies.mp ht).1
      obtain ⟨he, hactor⟩ := List.mem_filter.mp he
      exact ⟨e, he, of_decide_eq_true hactor⟩
    · rintro ⟨e, he, rfl⟩
      have hmine : e ∈ mine e.actorToken entries := List.mem_filter.mpr ⟨he, decide_eq_true rfl⟩
      exact ⟨tallyOf e.actorToken entries, mem_tallies.mpr ⟨List.ne_nil_of_mem hmine, rfl⟩, rfl⟩
  rw [← hperm.length_eq, List.length_map]
  rfl

/-- Nothing is dated after the reading: the window is the scope. -/
theorem filter_inWindow (hlog : ∀ e ∈ log, e.loggedAt < now) :
    log.filter (inWindow tenantID since now) = log.filter (inScope tenantID since) := by
  refine List.filter_congr fun e he => ?_
  simp [inWindow, inScope, hlog e he]

theorem entriesSince_perm (log : List AuditRow) (tenantID : String) (since : Time) :
    (entriesSince log tenantID since).Perm (log.filter (inScope tenantID since)) :=
  List.perm_insertionSort _ _

/-- The database counts what the page counts, just when the page shows the whole window. -/
theorem windowStats_eq_iff (hlog : ∀ e ∈ log, e.loggedAt < now) :
    auditWindowStats log tenantID (now - window) now =
        ((ariaInputs log tenantID window now loc).total,
          (ariaInputs log tenantID window now loc).callers) ↔
      (entriesSince log tenantID (now - window)).length ≤ maxPageSize := by
  have hperm := entriesSince_perm log tenantID (now - window)
  have htotal : (ariaInputs log tenantID window now loc).total =
      (listAuditEntriesSince log tenantID (now - window)).length := rfl
  rw [auditWindowStats, filter_inWindow hlog, Prod.mk.injEq, htotal, length_list, ← hperm.length_eq]
  constructor
  · rintro ⟨hlength, -⟩
    omega
  · intro hle
    refine ⟨by omega, ?_⟩
    rw [ariaInputs, callers_detect, list_of_le hle]
    exact ((hperm.map _).dedup.length_eq).symm

/-! ### The log as it was -/

/-- What had been logged before an instant. -/
def asOf (t : Time) (log : List AuditRow) : List AuditRow := log.filter fun e => e.loggedAt < t

theorem lt_of_mem_asOf {t : Time} {e : AuditRow} (h : e ∈ asOf t log) : e.loggedAt < t :=
  of_decide_eq_true (List.mem_filter.mp h).2

/-- A window that was over by then is counted the same in the log of today. -/
theorem windowStats_asOf (log : List AuditRow) (tenantID : String) (start t : Time) :
    auditWindowStats (asOf t log) tenantID start t = auditWindowStats log tenantID start t := by
  have hfilter : (asOf t log).filter (inWindow tenantID start t) =
      log.filter (inWindow tenantID start t) := by
    rw [asOf, List.filter_filter]
    refine List.filter_congr fun e _ => ?_
    by_cases ht : e.loggedAt < t <;> simp [inWindow, ht]
  simp only [auditWindowStats, hfilter]

/-- The badges compare what the page shows now with what it showed one window ago, when neither page was
cut off; and the counts behind them are those of the two pages only then. -/
theorem badges_compare_pages (log : List AuditRow) (tenantID : String) (window : Int) (now : Time)
    (loc : Location) (hlog : ∀ e ∈ log, e.loggedAt < now)
    (hwindow : 0 < window ∧ window ≤ Webhook.maxDuration) :
    let page := ariaInputs log tenantID window now loc
    let before := ariaInputs (asOf (now - window) log) tenantID window (now - window) loc
    let cur := auditWindowStats log tenantID (now - window) now
    let prev := auditWindowStats log tenantID (now - window - window) (now - window)
    (cur = (page.total, page.callers) ↔
        (entriesSince log tenantID (now - window)).length ≤ maxPageSize) ∧
      (prev = (before.total, before.callers) ↔
        (entriesSince (asOf (now - window) log) tenantID (now - window - window)).length ≤ maxPageSize) ∧
      ((entriesSince log tenantID (now - window)).length ≤ maxPageSize →
        (entriesSince (asOf (now - window) log) tenantID (now - window - window)).length ≤ maxPageSize →
        attachARIADeltas log page =
          (computeDelta page.total before.total, computeDelta page.callers before.callers)) := by
  intro page before cur prev
  have hcur : cur = (page.total, page.callers) ↔ _ := windowStats_eq_iff hlog
  have hprev : prev = (before.total, before.callers) ↔
      (entriesSince (asOf (now - window) log) tenantID (now - window - window)).length ≤ maxPageSize := by
    rw [← windowStats_eq_iff (fun _ => lt_of_mem_asOf), windowStats_asOf]
  refine ⟨hcur, hprev, fun hfits hfitted => ?_⟩
  have hsub : Webhook.sub page.now page.since = window := by
    change Webhook.sub now (now - window) = window
    rw [Webhook.sub, if_neg (by omega), if_neg (by simp only [Webhook.maxDuration] at *; omega)]
    omega
  have hshown : ¬(page.truncated = true ∨ window ≤ 0) := by
    rintro (htruncated | hle)
    · cases htruncated
    · omega
  rw [attachARIADeltas, hsub]
  simp only [if_neg hshown]
  change (computeDelta cur.1 prev.1, computeDelta cur.2 prev.2) = _
  rw [hcur.mpr hfits, hprev.mpr hfitted]

def callBy (actor : String) (loggedAt : Time) : AuditRow :=
  ⟨0, loggedAt, "acme", .user, actor, none, .replace, .success, none, none, none, none⟩

/-- Two calls of one caller in this window, one call of another in the window before. -/
theorem badges_compare_pages_up :
    let log := [callBy "a" 0, callBy "b" 10, callBy "b" 12]
    attachARIADeltas log (ariaInputs log "acme" 10 15 weekend) = (some .up, some .flat) ∧
      attachARIADeltas log (ariaInputs log "acme" 10 15 weekend) =
        (computeDelta (ariaInputs log "acme" 10 15 weekend).total
            (ariaInputs (asOf 5 log) "acme" 10 5 weekend).total,
          computeDelta (ariaInputs log "acme" 10 15 weekend).callers
            (ariaInputs (asOf 5 log) "acme" 10 5 weekend).callers) := by
  intro log
  have hlog : ∀ e ∈ log, e.loggedAt < 15 := by simp [log, callBy]
  have hpages := badges_compare_pages log "acme" 10 15 weekend hlog ⟨by decide, by decide⟩
  exact ⟨rfl, hpages.2.2 (by decide) (by decide)⟩

end Scimage.Aria
