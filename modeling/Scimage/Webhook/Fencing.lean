import Scimage.Webhook.Custody

/-! What a report that comes too late does to its row. -/
namespace Scimage.Webhook

open Txn Store

variable {ι : Type} {s t : State ι} {e : Event ι} {i j : ι} {n : Nat} {b : Batch}
  {del : Delivery} {report : Report} {todo : List Delivery} {r row : DeliveryRow}

/-- The row is not pending any more, or is already as the report would leave it. -/
def Report.spares (report : Report) (row : DeliveryRow) : Bool :=
  row.status ≠ .pending || match report with
    | .reschedule cause at' => row.nextAttemptAt = at' ∧ row.lastError = some (truncateCause cause)
    | .delivered | .deadLetter _ => false

theorem Report.spares_iff {now : Time} (hp : row.status = .pending) (hf : report.failure = true) :
    report.spares row = true ↔ report.set now row = row := by
  cases report with
  | delivered => cases hf
  | reschedule cause at' =>
    have hspares : (Report.reschedule cause at').spares row = true ↔
        row.nextAttemptAt = at' ∧ row.lastError = some (truncateCause cause) := by
      simp [Report.spares, hp]
    rw [hspares]
    constructor
    · rintro ⟨rfl, herror⟩
      rw [Report.set, rescheduled, ← herror]
    · intro hset
      exact ⟨(congrArg DeliveryRow.nextAttemptAt hset).symm,
        (congrArg DeliveryRow.lastError hset).symm⟩
  | deadLetter cause =>
    have hne : (Report.deadLetter cause).set now row ≠ row := by
      intro hset
      have hdead : row.status = .deadLetter := (congrArg DeliveryRow.status hset).symm
      rw [hp] at hdead
      cases hdead
    simp [Report.spares, hp, hne]

/-- The failure about to be reported after another claim or a replay of its delivery. -/
def Phase.lateReport (log : List (Happening ι)) : Phase → Option (Delivery × Report)
  | .reporting b del report _ =>
    if report.failure && superseded b.serial del.id log then some (del, report) else none
  | _ => none

/-- A late report of a failure finds nothing to write. -/
def Fenced (s : State ι) : Event ι → Prop
  | .report i => ∀ late ∈ (s.phase i).lateReport s.log, ∀ row ∈ s.rows, row.id = late.1.id →
      late.2.spares row = true
  | _ => True

instance (s : State ι) : ∀ e, Decidable (Fenced s e)
  | .report _ => inferInstanceAs (Decidable (∀ late ∈ _, ∀ row ∈ s.rows, _ → _))
  | .tick .. | .enqueue .. | .claim .. | .claimLost .. | .start .. | .refuse .. | .answer ..
  | .reportLost .. | .quit .. | .replay .. | .purge .. => isTrue trivial

theorem lateReport_eq_some {late : Delivery × Report} {p : Phase} {log : List (Happening ι)} :
    p.lateReport log = some late ↔ ∃ b todo, p = .reporting b late.1 late.2 todo ∧
      late.2.failure = true ∧ superseded b.serial late.1.id log = true := by
  constructor
  · intro h
    cases p with
    | reporting b del report todo =>
      obtain ⟨hlate, ⟨⟩⟩ := Option.ite_none_right_eq_some.mp h
      exact ⟨b, todo, rfl, Bool.and_eq_true_iff.mp hlate⟩
    | _ => cases h
  · rintro ⟨b, todo, rfl, hf, hsup⟩
    simp [Phase.lateReport, hf, hsup]

/-! ### A late report and its row -/

theorem updateWhere_eq_self {p : DeliveryRow → Bool} {set : DeliveryRow → DeliveryRow}
    {rows : List DeliveryRow} :
    updateWhere p set rows = rows ↔ ∀ r ∈ rows, p r = true → set r = r := by
  rw [updateWhere]
  conv_lhs => rhs; rw [← List.map_id rows]
  rw [List.map_inj_left]
  refine forall₂_congr fun r _ => ?_
  by_cases hp : p r = true <;> simp [hp]

/-- A superseded report leaves its row or delivers it. -/
theorem superseded_report (hi : s.phase i = .reporting b del report todo)
    (hsup : superseded b.serial del.id s.log = true) (hg : Fenced s (.report i))
    (hr : r ∈ s.rows) (hid : r.id = del.id) (hp : r.status = .pending) :
    report.set s.clock r = r ∨ (report.set s.clock r).status = .delivered := by
  by_cases hf : report.failure = true
  · have hlate : (s.phase i).lateReport s.log = some (del, report) :=
      lateReport_eq_some.mpr ⟨b, todo, hi, hf, hsup⟩
    exact Or.inl ((Report.spares_iff hp hf).mp (hg _ hlate r hr hid))
  · cases report with
    | delivered => exact Or.inr rfl
    | _ => exact absurd rfl hf

variable [DecidableEq ι] {ds : ι → Dispatcher}

/-- A late report changes nothing exactly when it finds nothing to write. -/
theorem late_report_iff {late : Delivery × Report}
    (hlate : (s.phase i).lateReport s.log = some late) (hs : Step ds s (.report i) t) :
    t.rows = s.rows ↔ Fenced s (.report i) := by
  obtain ⟨b, todo, hphase, hf, -⟩ := lateReport_eq_some.mp hlate
  have hfenced : Fenced s (.report i) ↔ ∀ row ∈ s.rows, row.id = late.1.id →
      late.2.spares row = true := by
    simp [Fenced, hlate]
  cases hs with
  | @report i b' del report todo' hphase' =>
    rw [hphase] at hphase'
    obtain ⟨rfl, rfl, rfl, rfl⟩ := Phase.reporting.inj hphase'
    rw [hfenced, State.setPhase, State.withRows, Report.write_eq, updateWhere_eq_self]
    refine forall₂_congr fun row _ => ?_
    by_cases hp : row.status = .pending
    · have hspares : late.2.spares row = true ↔ late.2.set s.clock row = row :=
        Report.spares_iff hp hf
      simp [DeliveryRow.stillPending, hp, hspares]
    · simp [DeliveryRow.stillPending, hp, Report.spares]

/-! ### Runs whose late reports find nothing to write -/

structure Kept (ds : ι → Dispatcher) (s : State ι) : Prop where
  /-- The latest claim keeps its attempt and its lease until the row is delivered. -/
  held : ∀ j n at' del, (s.phase j).Holds n at' del → superseded n del.id s.log = false →
    ∀ r ∈ s.rows, r.id = del.id → r.status = .delivered ∨ r.status = .pending ∧
      r.attempts = del.attempts ∧ r.nextAttemptAt = at' + (ds j).leaseFor
  /-- No budget is taken away before its first claim. -/
  fresh : ∀ r ∈ s.rows, r.attempts = 0 → r.status ≠ .deadLetter

theorem held_step (hs : Step ds s e t) (hg : Fenced s e) (hc : Custody s) (hk : Kept ds s) :
    ∀ j n at' del, (t.phase j).Holds n at' del → superseded n del.id t.log = false →
      ∀ r ∈ t.rows, r.id = del.id → r.status = .delivered ∨ r.status = .pending ∧
        r.attempts = del.attempts ∧ r.nextAttemptAt = at' + (ds j).leaseFor := by
  intro j n at' del hholds hnew r' hr' hid
  rcases holds_step hs hholds with hold | ⟨locked, returned, rfl, -, hreturned, hdel, -, rfl⟩
  · have hlatest : superseded n del.id s.log = false := by
      by_contra hsup
      rw [superseded_mono (log_grows hs) (by simpa using hsup)] at hnew
      cases hnew
    obtain ⟨r, hr, hrow⟩ :=
      step_old hs hc.orderly hr' (hid ▸ hc.enqueued j n at' del hold)
    have hrid : r.id = del.id := hrow.id_eq.symm.trans hid
    have hkept := hk.held j n at' del hold hlatest r hr hrid
    cases hrow with
    | same => exact hkept
    | claimed he hdue htaken =>
      have hsup := claim_supersedes hs he (List.mem_filter.mpr ⟨hr, htaken⟩)
        (hc.serial_le j n at' del hold)
      rw [hrid, hnew] at hsup
      cases hsup
    | @reported i b del' report todo r hi hid' hp =>
      have hi' : (s.phase i).Holds b.serial b.claimedAt del' := by simp [hi]
      have hij : i ≠ j := by
        rintro rfl
        exact report_drops hs hi (hc.nodup i) hholds (hrid.symm.trans hid')
      have hsup : superseded b.serial del'.id s.log = true := by
        rcases hc.overlap i j _ n _ at' del' del hij hi' hold (hid'.symm.trans hrid) with h | h
        · exact h
        · rw [← hid', hrid, hlatest] at h
          cases h
      rcases superseded_report hi hsup hg hr hid' hp with hset | hset
      · rw [hset]
        exact hkept
      · exact Or.inl hset
    | requeued hdead =>
      rw [hdead] at hkept
      rcases hkept with h | ⟨h, -⟩ <;> cases h
  · obtain ⟨r, hr, hrid, hkept⟩ := claimed_row hs hdel hc.orderly.nodup
    obtain rfl := List.inj_on_of_nodup_map (nodup_step hs hc.orderly) hr hr' (hrid.trans hid.symm)
    exact Or.inr hkept

theorem fresh_step (hs : Step ds s e t) (hg : Fenced s e) (hc : Custody s) (hk : Kept ds s) :
    ∀ r ∈ t.rows, r.attempts = 0 → r.status ≠ .deadLetter := by
  intro r' hr' hzero
  rcases step_row hs hc.orderly.nodup hr' with ⟨_, _, _, _, _, _, rfl, rfl⟩ | ⟨r, hr, hrow⟩
  · simp [newDelivery]
  · cases hrow with
    | same => exact hk.fresh _ hr hzero
    | claimed he hdue htaken => exact absurd hzero (Nat.succ_ne_zero _)
    | @reported i b del report todo r hi hid hp =>
      rw [Report.set_attempts] at hzero
      have hcount := hc.orderly.counted r hr
      rw [hzero, hid] at hcount
      have hsup := hc.unclaimed i b.serial b.claimedAt del (by simp [hi]) hcount.symm
      rcases superseded_report hi hsup hg hr hid hp with hset | hset
      · rw [hset]
        exact hk.fresh r hr hzero
      · simp [hset]
    | requeued hdead => simp [requeue]

theorem reach_kept (h : Reach ds Fenced s) : Kept ds s := by
  induction h with
  | start => exact ⟨fun j n at' del h => absurd h holds_idle, by simp [State.start]⟩
  | step h hg hs ih =>
    have hc := reach_custody h
    exact ⟨held_step hs hg hc ih, fresh_step hs hg hc ih⟩

/-- Where late failures find nothing to write, the latest claim of a delivery keeps its attempt
and its lease, nobody parks a delivery whose budget is fresh, and late failures change no row. -/
theorem late_reports_fenced (h : Reach ds Fenced s) :
    (∀ j n at' del, (s.phase j).Holds n at' del → superseded n del.id s.log = false →
      ∀ r ∈ s.rows, r.id = del.id → r.status = .delivered ∨ r.status = .pending ∧
        r.attempts = del.attempts ∧ r.nextAttemptAt = at' + (ds j).leaseFor) ∧
    (∀ r ∈ s.rows, countSince (Happening.isClaim r.id) r.id s.log = 0 →
      r.attempts = 0 ∧ r.status ≠ .deadLetter) ∧
    ∀ i late t, (s.phase i).lateReport s.log = some late → Step ds s (.report i) t →
      (t.rows = s.rows ↔ Fenced s (.report i)) := by
  have hk := reach_kept h
  refine ⟨hk.held, fun r hr hcount => ?_, fun i late t hlate hs => late_report_iff hlate hs⟩
  have hzero := ((reach_custody h).orderly.counted r hr).trans hcount
  exact ⟨hzero, hk.fresh r hr hzero⟩

/-- The lease of the left dispatcher runs out while it sends, and the right one claims. -/
def reclaimed : List (Event Replica) :=
  [someEnqueue, someClaim .left 1 0, .start .left, .tick 205000000000,
    someClaim .right 2 205000000000, .start .right]

/-- The left dispatcher gives up and parks what the right one is sending. -/
theorem late_failure_parks_reclaimed_row : ∃ s t : State Replica,
    Reach (fun _ => tries 1) (fun _ _ => True) s ∧ Step (fun _ => tries 1) s (.report .left) t ∧
      ((s.phase .left).lateReport s.log).isSome = true ∧ superseded 4 1 s.log = false ∧
      (∃ del, (t.phase .right).Holds 4 205000000000 del ∧ del.id = 1) ∧
      t.clock < 205000000000 + (tries 1).leaseFor ∧
      s.rows.map (fun r => (r.id, r.status)) = [(1, .pending)] ∧
      t.rows.map (fun r => (r.id, r.status)) = [(1, .deadLetter)] := by
  obtain ⟨s, hs, hfacts⟩ : ∃ s, exec (fun _ => tries 1) (fun _ _ => True) .start
      (reclaimed ++ [.answer .left (.failed "receiver" "timeout") 205000000000 0]) = some s ∧
      (((s.phase .left).lateReport s.log).isSome, superseded 4 1 s.log,
        s.rows.map fun r => (r.id, r.status),
        (next (fun _ => tries 1) s (.report .left)).map fun t =>
          (t.rows.map fun r => (r.id, r.status), decide (t.clock < 205000000000 + (tries 1).leaseFor),
            (t.phase .right).batch.map fun b => (b.serial, b.claimedAt),
            (t.phase .right).inFlight.map Delivery.id)) =
      (true, false, [(1, .pending)],
        some ([(1, .deadLetter)], true, some (4, 205000000000), [1])) :=
    Option.map_eq_some_iff.mp rfl
  simp only [Prod.mk.injEq, Option.map_eq_some_iff, decide_eq_true_eq] at hfacts
  obtain ⟨hlate, hlatest, hbefore, t, ht, hafter, hclock, ⟨b, hb, hserial, hat⟩, hids⟩ := hfacts
  obtain ⟨del, hdel, hid⟩ := List.mem_map.mp (hids ▸ List.mem_singleton_self 1)
  exact ⟨s, t, reach_exec .start hs, step_of_next ht, hlate, hlatest,
    ⟨del, ⟨b, hb, hserial, hat, hdel⟩, hid⟩, hclock, hbefore, hafter⟩

/-- The right dispatcher delivers before the left one reports its failure. -/
theorem late_reports_fenced_delivered : ∃ s t : State Replica,
    ((s.phase .left).lateReport s.log).isSome = true ∧
      Step (fun _ => tries 1) s (.report .left) t ∧ t.rows = s.rows := by
  obtain ⟨s, hs, hfacts⟩ : ∃ s, exec (fun _ => tries 1) Fenced .start
      (reclaimed ++ [.answer .right (.answered 200 "200 OK" "") 0 0, .report .right,
        .answer .left (.failed "receiver" "timeout") 205000000000 0]) = some s ∧
      (((s.phase .left).lateReport s.log).isSome, decide (Fenced s (.report .left)),
        (next (fun _ => tries 1) s (.report .left)).isSome) = (true, true, true) :=
    Option.map_eq_some_iff.mp rfl
  simp only [Prod.mk.injEq, decide_eq_true_eq] at hfacts
  obtain ⟨hlate, hfenced, hnext⟩ := hfacts
  obtain ⟨late, hsome⟩ := Option.isSome_iff_exists.mp hlate
  obtain ⟨t, ht⟩ := Option.isSome_iff_exists.mp hnext
  exact ⟨s, t, hlate, step_of_next ht, ((late_reports_fenced (reach_exec .start hs)).2.2 .left late t
    hsome (step_of_next ht)).mpr hfenced⟩

end Scimage.Webhook
