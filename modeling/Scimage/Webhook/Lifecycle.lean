import Scimage.Webhook.System
import Mathlib.Data.List.Induction

/-! What a delivery goes through between its enqueue and its purge. -/
namespace Scimage.Webhook

open Txn Store

variable {ι : Type} {r r' : DeliveryRow} {id : Nat}

/-! ### Counting since the last reset -/

/-- The happening starts a new retry budget. -/
def Happening.resets (id : Nat) : Happening ι → Bool
  | .enqueued k | .replayed k => k = id
  | _ => false

def Happening.isClaim (id : Nat) : Happening ι → Bool
  | .claimed _ k | .lost _ k => k = id
  | _ => false

def Happening.isPost (id : Nat) : Happening ι → Bool
  | .posted _ k => k = id
  | _ => false

/-- The log from the enqueue or the latest replay of a delivery on, the latest first. -/
def since (id : Nat) (log : List (Happening ι)) : List (Happening ι) :=
  log.reverse.takeWhile fun h => !h.resets id

/-- How often `p` happened since the enqueue or the latest replay of a delivery. -/
def countSince (p : Happening ι → Bool) (id : Nat) (log : List (Happening ι)) : Nat :=
  (since id log).countP p

theorem countSince_snoc (p : Happening ι → Bool) (id : Nat) (log : List (Happening ι))
    (h : Happening ι) : countSince p id (log ++ [h]) =
      if h.resets id then 0 else if p h then countSince p id log + 1 else countSince p id log := by
  by_cases hreset : h.resets id = true
  · simp [countSince, since, hreset]
  · by_cases hp : p h = true
    · simp [countSince, since, hreset, hp]
    · simp [countSince, since, hreset, hp]

/-- Without a reset the counts add up. -/
theorem countSince_append (p : Happening ι → Bool) (log : List (Happening ι))
    {more : List (Happening ι)} (h : ∀ x ∈ more, x.resets id = false) :
    countSince p id (log ++ more) = countSince p id log + more.countP p := by
  induction more using List.reverseRecOn with
  | nil => simp
  | append_singleton more x ih =>
    have hx := h x (by simp)
    rw [← List.append_assoc, countSince_snoc, ih fun y hy => h y (List.mem_append_left _ hy)]
    by_cases hp : p x
    · simp [hx, hp]
      omega
    · simp [hx, hp]

/-! ### What a step does to a row -/

variable {ds : ι → Dispatcher} {s t : State ι} {e : Event ι}

/-- A claim takes a row at most once. -/
theorem taken_countP {d : Dispatcher} {locked : Nat → Bool} {p : Happening ι → Bool}
    {h : Nat → Happening ι} (hp : ∀ k, p (h k) = decide (k = r.id))
    (hn : (s.rows.map DeliveryRow.id).Nodup) (hr : r ∈ s.rows) :
    ((taken d s locked).map fun r => h r.id).countP p =
      if claims d.batch s.clock locked s.rows r then 1 else 0 := by
  have hnt : ((taken d s locked).map DeliveryRow.id).Nodup :=
    hn.sublist (List.filter_sublist.map DeliveryRow.id)
  have hcount : ((taken d s locked).map fun r => h r.id).countP p =
      ((taken d s locked).map DeliveryRow.id).count r.id := by
    rw [List.countP_map, List.count, List.countP_map]
    refine List.countP_congr fun x _ => ?_
    simp [hp]
  rw [hcount, hnt.count]
  have hmem : r.id ∈ (taken d s locked).map DeliveryRow.id ↔
      claims d.batch s.clock locked s.rows r = true := by
    constructor
    · intro h
      obtain ⟨x, hx, hid⟩ := List.mem_map.mp h
      rw [← claims_congr hid]
      exact (List.mem_filter.mp hx).2
    · intro hc
      exact List.mem_map_of_mem (List.mem_filter.mpr ⟨hr, hc⟩)
  simp [hmem]

/-- How one step may change a row that stays. -/
inductive RowStep (ds : ι → Dispatcher) (s : State ι) :
    Event ι → DeliveryRow → DeliveryRow → Prop where
  | same {e : Event ι} {r : DeliveryRow} : RowStep ds s e r r
  | claimed {i : ι} {locked : Nat → Bool} {e : Event ι} {r : DeliveryRow}
      (he : e = .claimLost i locked ∨ ∃ returned, e = .claim i locked returned)
      (hdue : r.due s.clock = true)
      (htaken : claims (ds i).batch s.clock locked s.rows r = true) :
      RowStep ds s e r (lease s.clock (ds i).leaseFor r)
  | reported {i : ι} {b : Batch} {del : Delivery} {report : Report} {todo : List Delivery}
      {r : DeliveryRow} (hi : s.phase i = .reporting b del report todo) (hid : r.id = del.id)
      (hp : r.status = .pending) : RowStep ds s (.report i) r (report.set s.clock r)
  | requeued {started : Time} {r : DeliveryRow} (hdead : r.status = .deadLetter) :
      RowStep ds s (.replay started r.id) r (requeue started r)

theorem RowStep.id_eq (h : RowStep ds s e r r') : r'.id = r.id := by
  cases h with
  | reported => simp
  | _ => rfl

/-- What the two rows say of the change is the same. -/
def SameChange (r r' : DeliveryRow) : Prop :=
  r'.id = r.id ∧ r'.tenantID = r.tenantID ∧ r'.eventType = r.eventType ∧
    r'.targetID = r.targetID ∧ r'.payload = r.payload

/-- How one step may move the status of a row. -/
inductive Moves (id : Nat) : Event ι → DeliveryStatus → DeliveryStatus → Prop where
  | stay {e : Event ι} {status : DeliveryStatus} : Moves id e status status
  | deliver {i : ι} : Moves id (.report i) .pending .delivered
  | park {i : ι} : Moves id (.report i) .pending .deadLetter
  | requeue (started : Time) : Moves id (.replay started id) .deadLetter .pending

theorem RowStep.sameChange (h : RowStep ds s e r r') : SameChange r r' := by
  cases h with
  | @reported i b del report todo r hphase hid hp =>
    cases report <;> exact ⟨rfl, rfl, rfl, rfl, rfl⟩
  | _ => exact ⟨rfl, rfl, rfl, rfl, rfl⟩

theorem RowStep.moves (h : RowStep ds s e r r') : Moves r.id e r.status r'.status := by
  cases h with
  | same => exact .stay
  | claimed he hdue htaken => exact .stay
  | @reported i b del report todo r hphase hid hp =>
    cases report with
    | delivered =>
      rw [hp]
      exact .deliver
    | reschedule cause at' => exact .stay
    | deadLetter cause =>
      rw [hp]
      exact .park
  | requeued hdead =>
    rw [hdead]
    exact .requeue _

variable [DecidableEq ι]

theorem step_row (hs : Step ds s e t) (hn : (s.rows.map DeliveryRow.id).Nodup)
    (hr : r' ∈ t.rows) : (∃ started id tenantID eventType target payload,
      e = .enqueue started id tenantID eventType target payload ∧
        r' = newDelivery started id tenantID eventType target payload) ∨
      ∃ r ∈ s.rows, RowStep ds s e r r' := by
  cases hs with
  | tick δ => exact Or.inr ⟨r', hr, .same⟩
  | enqueue started hid tenantID eventType target payload =>
    rcases List.mem_append.mp hr with hr | hr
    · exact Or.inr ⟨r', hr, .same⟩
    · exact Or.inl ⟨_, _, _, _, _, _, rfl, List.mem_singleton.mp hr⟩
  | claim hi locked hreturned =>
    obtain ⟨r, hmem, rfl⟩ := mem_updateWhere.mp hr
    refine Or.inr ⟨r, hmem, ?_⟩
    split
    · rename_i hc
      exact .claimed (Or.inr ⟨_, rfl⟩) (claims_due hn hmem hc) hc
    · exact .same
  | claimLost hi locked =>
    obtain ⟨r, hmem, rfl⟩ := mem_updateWhere.mp hr
    refine Or.inr ⟨r, hmem, ?_⟩
    split
    · rename_i hc
      exact .claimed (Or.inl rfl) (claims_due hn hmem hc) hc
    · exact .same
  | start hi => exact Or.inr ⟨r', hr, .same⟩
  | refuse cause hi => exact Or.inr ⟨r', hr, .same⟩
  | answer response now hi hjitter => exact Or.inr ⟨r', hr, .same⟩
  | @report i b del report todo hi =>
    simp only [State.setPhase, State.withRows, Report.write_eq] at hr
    obtain ⟨r, hmem, rfl⟩ := mem_updateWhere.mp hr
    refine Or.inr ⟨r, hmem, ?_⟩
    split
    · rename_i hp
      simp only [DeliveryRow.stillPending, decide_eq_true_eq] at hp
      exact .reported hi hp.1 hp.2
    · exact .same
  | reportLost hi => exact Or.inr ⟨r', hr, .same⟩
  | quit i => exact Or.inr ⟨r', hr, .same⟩
  | replay started hmem hid hdead =>
    obtain ⟨r, hmem, rfl⟩ := mem_updateWhere.mp hr
    refine Or.inr ⟨r, hmem, ?_⟩
    split
    · rename_i hp
      simp only [decide_eq_true_eq] at hp
      obtain ⟨rfl, hp⟩ := hp
      exact .requeued hp
    · exact .same
  | purge hi hret now => exact Or.inr ⟨r', (List.mem_filter.mp hr).1, .same⟩

/-! ### What every reachable state satisfies -/

/-- What every step keeps of the rows and of the log. -/
structure Orderly (s : State ι) : Prop where
  nodup : (s.rows.map DeliveryRow.id).Nodup
  enqueued : ∀ r ∈ s.rows, .enqueued r.id ∈ s.log
  counted : ∀ r ∈ s.rows, r.attempts = countSince (Happening.isClaim r.id) r.id s.log
  finished : ∀ r ∈ s.rows, (r.deliveredAt.isSome = true ↔ r.status = .delivered) ∧
    (r.status = .delivered → r.lastError = none)
  accepted : ∀ r ∈ s.rows, r.status = .delivered → ∃ i, .accepted i r.id ∈ s.log
  reporting : ∀ i b del todo, s.phase i = .reporting b del .delivered todo →
    .accepted i del.id ∈ s.log

theorem log_grows (hs : Step ds s e t) : s.log <+: t.log := by
  cases hs with
  | answer response now hi hjitter => exact List.prefix_append _ _
  | tick | refuse | report | reportLost | quit | purge => exact List.prefix_refl _
  | enqueue | claim | claimLost | start | replay => exact List.prefix_append _ _

theorem nodup_step (hs : Step ds s e t) (hi : Orderly s) : (t.rows.map DeliveryRow.id).Nodup := by
  cases hs with
  | @enqueue started id hid tenantID eventType target payload =>
    have hnew : ∀ r ∈ s.rows, r.id ≠ id := fun r hr he => hid (he ▸ hi.enqueued r hr)
    simp only [State.note, State.withRows, List.map_append, List.map_cons, List.map_nil]
    refine List.nodup_append.mpr ⟨hi.nodup, List.nodup_singleton _, ?_⟩
    intro a ha b hb
    obtain ⟨r, hr, rfl⟩ := List.mem_map.mp ha
    rw [List.mem_singleton.mp hb]
    exact hnew r hr
  | claim hidle locked hr =>
    simp only [State.claimed, State.setPhase, State.withRows, State.note, claimDueDeliveries]
    rw [map_id_updateWhere fun _ => lease_id _]
    exact hi.nodup
  | claimLost hidle locked =>
    simp only [State.claimed, State.withRows, State.note, claimDueDeliveries]
    rw [map_id_updateWhere fun _ => lease_id _]
    exact hi.nodup
  | report hrep =>
    simp only [State.setPhase, State.withRows, Report.write_eq]
    rw [map_id_updateWhere fun r => Report.set_id _ _ r]
    exact hi.nodup
  | replay started hr hid hdead =>
    simp only [State.withRows, State.note, replayed]
    rw [map_id_updateWhere fun _ => requeue_id]
    exact hi.nodup
  | purge hidle hret now => exact hi.nodup.sublist (List.filter_sublist.map _)
  | tick | start | refuse | answer | reportLost | quit => exact hi.nodup

theorem enqueued_step (hs : Step ds s e t) (hi : Orderly s) :
    ∀ r ∈ t.rows, .enqueued r.id ∈ t.log := by
  intro r' hr'
  rcases step_row hs hi.nodup hr' with ⟨_, _, _, _, _, _, rfl, rfl⟩ | ⟨r, hr, hstep⟩
  · cases hs
    exact List.mem_append_right _ (List.mem_singleton_self _)
  · rw [hstep.id_eq]
    exact (log_grows hs).subset (hi.enqueued r hr)

omit [DecidableEq ι] in
/-- A claim counts itself on the rows that it takes. -/
theorem counted_claimed {d : Dispatcher} {locked : Nat → Bool} {h : Nat → Happening ι}
    (hclaim : ∀ id k, (h k).isClaim id = decide (k = id)) (hreset : ∀ id k, (h k).resets id = false)
    (hi : Orderly s) : ∀ r ∈ (s.claimed d locked h).rows,
      r.attempts = countSince (Happening.isClaim r.id) r.id (s.claimed d locked h).log := by
  intro r' hr'
  obtain ⟨r, hr, rfl⟩ := mem_updateWhere.mp hr'
  have hcount : countSince (Happening.isClaim r.id) r.id (s.claimed d locked h).log =
      r.attempts + if claims d.batch s.clock locked s.rows r then 1 else 0 := by
    rw [State.claimed, State.note, countSince_append _ _ (by simp [hreset]),
      taken_countP (hclaim r.id) hi.nodup hr, hi.counted r hr]
    rfl
  by_cases hc : claims d.batch s.clock locked s.rows r = true
  · simpa [hc, lease] using hcount.symm
  · simpa [hc] using hcount.symm

theorem counted_step (hs : Step ds s e t) (hi : Orderly s) :
    ∀ r ∈ t.rows, r.attempts = countSince (Happening.isClaim r.id) r.id t.log := by
  cases hs with
  | @enqueue started id hid tenantID eventType target payload =>
    intro r hr
    rw [State.note, State.withRows, countSince_snoc]
    rcases List.mem_append.mp hr with hr | hr
    · have hne : id ≠ r.id := fun he => hid (he ▸ hi.enqueued r hr)
      simpa [Happening.resets, Happening.isClaim, hne] using hi.counted r hr
    · obtain rfl := List.mem_singleton.mp hr
      simp [Happening.resets, newDelivery]
  | claim hidle locked hr => exact counted_claimed (fun _ _ => rfl) (fun _ _ => rfl) hi
  | claimLost hidle locked => exact counted_claimed (fun _ _ => rfl) (fun _ _ => rfl) hi
  | start hphase =>
    intro r hr
    rw [State.note, countSince_snoc]
    exact hi.counted r hr
  | answer response now hphase hjitter =>
    intro r hr
    rw [State.note]
    split
    · rw [countSince_snoc]
      exact hi.counted r hr
    · rw [List.append_nil]
      exact hi.counted r hr
  | report hphase =>
    intro r' hr'
    simp only [State.setPhase, State.withRows, Report.write_eq] at hr' ⊢
    obtain ⟨r, hr, rfl⟩ := mem_updateWhere.mp hr'
    split
    · rw [Report.set_id, Report.set_attempts]
      exact hi.counted r hr
    · exact hi.counted r hr
  | @replay started id dead hdead hid hstatus =>
    intro r' hr'
    obtain ⟨r, hr, rfl⟩ := mem_updateWhere.mp hr'
    rw [State.note, State.withRows, countSince_snoc]
    by_cases hrid : r.id = id
    · obtain rfl := List.inj_on_of_nodup_map hi.nodup hr hdead (hrid.trans hid.symm)
      simp [hrid, hstatus, requeue, Happening.resets]
    · simpa [hrid, Ne.symm hrid, Happening.resets, Happening.isClaim] using hi.counted r hr
  | purge hidle hret now => exact fun r hr => hi.counted r (List.mem_of_mem_filter hr)
  | tick | refuse | reportLost | quit => exact hi.counted

/-- A report of success comes after an accepted POST. -/
theorem reporting_step (hs : Step ds s e t) (hi : Orderly s) :
    ∀ i b del todo, t.phase i = .reporting b del .delivered todo → .accepted i del.id ∈ t.log := by
  intro j b del todo hj
  have hold : s.phase j = .reporting b del .delivered todo → .accepted j del.id ∈ t.log :=
    fun h => (log_grows hs).subset (hi.reporting j b del todo h)
  cases hs with
  | tick δ =>
    obtain ⟨b', hb'⟩ := Phase.age_reporting hj
    exact hi.reporting j b' del todo hb'
  | claim hidle locked hr =>
    rw [State.setPhase_phase] at hj
    split at hj
    · exact absurd hj Batch.next_ne_reporting
    · exact hold hj
  | start hphase =>
    simp only [State.note, State.setPhase_phase] at hj
    split at hj
    · cases hj
    · exact hold hj
  | refuse cause hphase =>
    rw [State.setPhase_phase] at hj
    split at hj
    · cases hj
    · exact hold hj
  | answer response now hphase hjitter =>
    simp only [State.note, State.setPhase_phase] at hj
    split at hj
    · rename_i hji
      simp only [Phase.reporting.injEq] at hj
      obtain ⟨-, rfl, hr, -⟩ := hj
      have haccepted := send_eq_none.mp (attempt_eq_delivered.mp hr)
      simp [State.note, haccepted, hji]
    · exact hold hj
  | report hphase | reportLost hphase =>
    rw [State.setPhase_phase] at hj
    split at hj
    · exact absurd hj Batch.next_ne_reporting
    · exact hold hj
  | quit i =>
    rw [State.setPhase_phase] at hj
    split at hj
    · cases hj
    · exact hold hj
  | enqueue | claimLost | replay | purge => exact hold hj

theorem finished_step (hs : Step ds s e t) (hi : Orderly s) :
    ∀ r ∈ t.rows, (r.deliveredAt.isSome = true ↔ r.status = .delivered) ∧
      (r.status = .delivered → r.lastError = none) := by
  intro r' hr'
  rcases step_row hs hi.nodup hr' with ⟨_, _, _, _, _, _, rfl, rfl⟩ | ⟨r, hr, hstep⟩
  · simp [newDelivery]
  · have hold := hi.finished r hr
    cases hstep with
    | same => exact hold
    | claimed he hdue htaken => exact hold
    | @reported i b del report todo r hphase hid hp =>
      cases report with
      | delivered => simp [Report.set, delivered]
      | reschedule cause at' => simpa [Report.set, rescheduled, hp] using hold
      | deadLetter cause => simpa [Report.set, parked, hp] using hold
    | requeued hdead => simpa [requeue, hdead] using hold

theorem accepted_step (hs : Step ds s e t) (hi : Orderly s) :
    ∀ r ∈ t.rows, r.status = .delivered → ∃ i, .accepted i r.id ∈ t.log := by
  intro r' hr' hdone
  rcases step_row hs hi.nodup hr' with ⟨_, _, _, _, _, _, rfl, rfl⟩ | ⟨r, hr, hstep⟩
  · cases hdone
  · have hold : r.status = .delivered → ∃ i, .accepted i r.id ∈ t.log := by
      intro h
      obtain ⟨i, hmem⟩ := hi.accepted r hr h
      exact ⟨i, (log_grows hs).subset hmem⟩
    cases hstep with
    | same => exact hold hdone
    | claimed he hdue htaken => exact hold hdone
    | @reported i b del report todo r hphase hid hp =>
      cases report with
      | delivered =>
        rw [Report.set_id, hid]
        exact ⟨i, (log_grows hs).subset (hi.reporting i b del todo hphase)⟩
      | reschedule cause at' =>
        have hstill : r.status = .delivered := hdone
        rw [hp] at hstill
        cases hstill
      | deadLetter cause => cases hdone
    | requeued hdead => cases hdone

theorem orderly_step (hs : Step ds s e t) (hi : Orderly s) : Orderly t :=
  ⟨nodup_step hs hi, enqueued_step hs hi, counted_step hs hi, finished_step hs hi,
    accepted_step hs hi, reporting_step hs hi⟩

variable {G : State ι → Event ι → Prop}

theorem reach_orderly (h : Reach ds G s) : Orderly s := by
  induction h with
  | start => exact ⟨List.nodup_nil, by simp [State.start], by simp [State.start],
      by simp [State.start], by simp [State.start], by simp [State.start]⟩
  | step h hg hs ih => exact orderly_step hs ih

/-! ### What a run does to a row -/

/-- A step keeps a row, unless it is a purge that finds it delivered and old. -/
theorem step_keeps (hs : Step ds s e t) (hr : r ∈ s.rows) :
    (∃ r' ∈ t.rows, r'.id = r.id) ∨ ∃ i now, e = .purge i now ∧ r.status = .delivered ∧
      ∃ at', r.deliveredAt = some at' ∧ at' < now - (ds i).retention := by
  have hset : ∀ {p : DeliveryRow → Bool} {set : DeliveryRow → DeliveryRow},
      (∀ r, (set r).id = r.id) → ∃ r' ∈ updateWhere p set s.rows, r'.id = r.id := by
    intro p set hid
    refine ⟨_, mem_updateWhere.mpr ⟨r, hr, rfl⟩, ?_⟩
    split
    · exact hid r
    · rfl
  cases hs with
  | enqueue => exact Or.inl ⟨r, List.mem_append_left _ hr, rfl⟩
  | claim | claimLost => exact Or.inl (hset fun _ => lease_id _)
  | @report i b del report todo hphase =>
    refine Or.inl ?_
    simp only [State.setPhase, State.withRows, Report.write_eq]
    exact hset fun _ => Report.set_id _ _ _
  | replay => exact Or.inl (hset fun _ => requeue_id)
  | @purge i hidle hret now =>
    by_cases hp : purgeable (now - (ds i).retention) r = true
    · simp only [purgeable, decide_eq_true_eq, Option.mem_def] at hp
      exact Or.inr ⟨i, now, rfl, hp⟩
    · exact Or.inl ⟨r, List.mem_filter.mpr ⟨hr, by simp [hp]⟩, rfl⟩
  | tick | start | refuse | answer | reportLost | quit => exact Or.inl ⟨r, hr, rfl⟩

/-- A row whose id is in use comes from a row that was there. -/
theorem step_old (hs : Step ds s e t) (hi : Orderly s) (hr : r' ∈ t.rows)
    (hold : .enqueued r'.id ∈ s.log) : ∃ r ∈ s.rows, RowStep ds s e r r' := by
  rcases step_row hs hi.nodup hr with ⟨_, _, _, _, _, _, rfl, rfl⟩ | hrow
  · cases hs with
    | enqueue started hfresh => exact absurd hold hfresh
  · exact hrow

/-- Runs from a state. -/
abbrev Leads (ds : ι → Dispatcher) : State ι → State ι → Prop :=
  Relation.ReflTransGen fun s t => ∃ e, Step ds s e t

/-- A row keeps what it says for as long as it is there, and its id is not used again. -/
theorem leads_sameChange (hi : Orderly s) (h : Leads ds s t) (hr : r ∈ s.rows) :
    ∀ r' ∈ t.rows, r'.id = r.id → SameChange r r' := by
  have hall : Orderly t ∧ .enqueued r.id ∈ t.log ∧
      ∀ r' ∈ t.rows, r'.id = r.id → SameChange r r' := by
    induction h with
    | refl =>
      refine ⟨hi, hi.enqueued r hr, fun r' hr' hid => ?_⟩
      obtain rfl := List.inj_on_of_nodup_map hi.nodup hr' hr hid
      exact ⟨rfl, rfl, rfl, rfl, rfl⟩
    | tail hrun hstep ih =>
      obtain ⟨e, hs⟩ := hstep
      obtain ⟨hi', hmem, ih⟩ := ih
      refine ⟨orderly_step hs hi', (log_grows hs).subset hmem, fun r'' hr'' hid => ?_⟩
      obtain ⟨r', hr', hrow⟩ := step_old hs hi' hr'' (hid ▸ hmem)
      obtain ⟨h₁, h₂, h₃, h₄, h₅⟩ := ih r' hr' (hrow.id_eq.symm.trans hid)
      obtain ⟨g₁, g₂, g₃, g₄, g₅⟩ := hrow.sameChange
      exact ⟨g₁.trans h₁, g₂.trans h₂, g₃.trans h₃, g₄.trans h₄, g₅.trans h₅⟩
  exact hall.2.2

/-- Every delivery keeps its identity, moves as its status allows, counts its claims since its
latest reset, is delivered after an accepted POST only, and goes by a purge only. -/
theorem outbox_lifecycle (h : Reach ds G s) :
    (∀ t, Leads ds s t → ∀ r ∈ s.rows, ∀ r' ∈ t.rows, r'.id = r.id → SameChange r r') ∧
    (∀ e t, Step ds s e t → ∀ r ∈ s.rows,
      (∃ r' ∈ t.rows, r'.id = r.id ∧ Moves r.id e r.status r'.status) ∨
        ∃ i now, e = .purge i now ∧ r.status = .delivered ∧
          ∃ at', r.deliveredAt = some at' ∧ at' < now - (ds i).retention) ∧
    ∀ r ∈ s.rows, (r.deliveredAt.isSome = true ↔ r.status = .delivered) ∧
      (r.status = .delivered → r.lastError = none ∧ ∃ i, .accepted i r.id ∈ s.log) ∧
      r.attempts = countSince (Happening.isClaim r.id) r.id s.log := by
  have hi := reach_orderly h
  refine ⟨fun t hrun r hr => leads_sameChange hi hrun hr, fun e t hs r hr => ?_, fun r hr => ?_⟩
  · rcases step_keeps hs hr with ⟨r', hr', hid⟩ | hgone
    · refine Or.inl ⟨r', hr', hid, ?_⟩
      obtain ⟨x, hx, hrow⟩ := step_old hs hi hr' (hid ▸ hi.enqueued r hr)
      obtain rfl := List.inj_on_of_nodup_map hi.nodup hx hr (hrow.id_eq.symm.trans hid)
      exact hrow.moves
    · exact Or.inr hgone
  · obtain ⟨hdone, herror⟩ := hi.finished r hr
    exact ⟨hdone, fun hd => ⟨herror hd, hi.accepted r hr hd⟩, hi.counted r hr⟩

theorem outbox_lifecycle_delivered : ∃ s : State Replica,
    s.rows.map (fun r => (r.status, countSince (Happening.isClaim r.id) r.id s.log)) =
      [(.delivered, 1)] ∧
    ∀ r ∈ s.rows, r.status = .delivered → r.lastError = none ∧ ∃ i, .accepted i r.id ∈ s.log := by
  obtain ⟨s, hs, hrows⟩ : ∃ s, exec (fun _ => tries 1) (fun _ _ => True) .start
      [someEnqueue, someClaim .left 1 0, .start .left, .answer .left (.answered 200 "200 OK" "") 0 0,
        .report .left] = some s ∧
      s.rows.map (fun r => (r.status, countSince (Happening.isClaim r.id) r.id s.log)) =
        [(.delivered, 1)] :=
    Option.map_eq_some_iff.mp rfl
  exact ⟨s, hrows, fun r hr => ((outbox_lifecycle (reach_exec .start hs)).2.2 r hr).2.1⟩

end Scimage.Webhook
