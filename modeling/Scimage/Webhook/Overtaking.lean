import Scimage.Webhook.Conserved
import Scimage.Webhook.Lease

/-! How many deliveries a due one can be passed over for. -/
namespace Scimage.Webhook

open Txn Store

variable {ι : Type} {r a b c : DeliveryRow} {rows : List DeliveryRow}

/-! ### The order of a claim -/

/-- Whether a delivery that is due at `at'` comes before `r` in the order of a claim. -/
def precedes (at' : Time) (id : Nat) (r : DeliveryRow) : Bool :=
  at' < r.nextAttemptAt || (at' == r.nextAttemptAt && id ≤ r.id)

theorem dueBefore_iff : a.dueBefore b = true ↔
    a.nextAttemptAt < b.nextAttemptAt ∨ (a.nextAttemptAt = b.nextAttemptAt ∧ a.id ≤ b.id) := by
  simp [DeliveryRow.dueBefore]

theorem dueBefore_total (a b : DeliveryRow) : a.dueBefore b = true ∨ b.dueBefore a = true := by
  rw [dueBefore_iff, dueBefore_iff]
  rcases lt_trichotomy a.nextAttemptAt b.nextAttemptAt with hab | hab | hab
  · exact Or.inl (Or.inl hab)
  · rcases Nat.le_total a.id b.id with hid | hid
    · exact Or.inl (Or.inr ⟨hab, hid⟩)
    · exact Or.inr (Or.inr ⟨hab.symm, hid⟩)
  · exact Or.inr (Or.inl hab)

theorem dueBefore_trans (hab : a.dueBefore b = true) (hbc : b.dueBefore c = true) :
    a.dueBefore c = true := by
  rw [dueBefore_iff] at *
  rcases hab with hab | ⟨hab, hid⟩
  · rcases hbc with hbc | ⟨hbc, -⟩
    · exact Or.inl (hab.trans hbc)
    · exact Or.inl (hbc ▸ hab)
  · rcases hbc with hbc | ⟨hbc, hid'⟩
    · exact Or.inl (hab ▸ hbc)
    · exact Or.inr ⟨hab.trans hbc, hid.trans hid'⟩

instance : Std.Total fun a b : DeliveryRow => a.dueBefore b = true where
  total := dueBefore_total

instance : IsTrans DeliveryRow fun a b => a.dueBefore b = true where
  trans _ _ _ := dueBefore_trans

/-- A pending delivery that a claim would take before `r`. -/
def ahead (r x : DeliveryRow) : Bool :=
  x.status = .pending && (x.id ≠ r.id && precedes x.nextAttemptAt x.id r)

/-- How many deliveries are ahead of `r`. -/
def aheadOf (r : DeliveryRow) (rows : List DeliveryRow) : Nat := rows.countP (ahead r)

/-- A due row that a claim passes by has a whole batch taken before it. -/
theorem batch_taken_ahead {limit : Int} {now : Time} {locked : Nat → Bool}
    (hr : r ∈ rows) (hdue : r.due now = true)
    (hfree : locked r.id = false) (hleft : claims limit now locked rows r = false)
    (hn : (rows.map DeliveryRow.id).Nodup) :
    limit.toNat ≤ rows.countP fun x => ahead r x && claims limit now locked rows x := by
  set sorted := (rows.filter fun r => r.due now && !locked r.id).insertionSort
    fun a b => a.dueBefore b with hsorted
  have hmem : ∀ x, x ∈ sorted ↔ x ∈ rows ∧ x.due now = true ∧ locked x.id = false := by
    intro x
    rw [hsorted, List.mem_insertionSort, List.mem_filter]
    simp
  have hnot : r.id ∉ (sorted.take limit.toNat).map DeliveryRow.id := by
    rw [claims, decide_eq_false_iff_not] at hleft
    exact hleft
  have hin : r ∈ sorted := (hmem r).mpr ⟨hr, hdue, hfree⟩
  -- `r` is past the batch, so the batch is full and each of its rows comes before `r`
  have hdrop : r ∈ sorted.drop limit.toNat := by
    rw [← List.take_append_drop limit.toNat sorted, List.mem_append] at hin
    exact hin.resolve_left fun htake => hnot (List.mem_map_of_mem htake)
  have hlen : (sorted.take limit.toNat).length = limit.toNat := by
    have hpos := List.length_pos_of_mem hdrop
    rw [List.length_drop] at hpos
    rw [List.length_take]
    omega
  have hbefore : ∀ x ∈ sorted.take limit.toNat, x.dueBefore r = true := by
    have hpair : sorted.Pairwise fun a b => a.dueBefore b = true :=
      List.pairwise_insertionSort (fun a b : DeliveryRow => a.dueBefore b = true) _
    rw [← List.take_append_drop limit.toNat sorted, List.pairwise_append] at hpair
    exact fun x hx => hpair.2.2 x hx r hdrop
  have hnodup : (sorted.take limit.toNat).Nodup := by
    refine List.Nodup.sublist (List.take_sublist _ _) ?_
    rw [hsorted, (List.perm_insertionSort _ _).nodup_iff]
    exact hn.of_map.filter _
  have hsub : sorted.take limit.toNat ⊆
      rows.filter fun x => ahead r x && claims limit now locked rows x := by
    intro x hx
    obtain ⟨hrow, hxdue, -⟩ := (hmem x).mp (List.mem_of_mem_take hx)
    have hne : x.id ≠ r.id := fun h => hnot (h ▸ List.mem_map_of_mem hx)
    have hclaim : claims limit now locked rows x = true := by
      rw [claims, decide_eq_true_eq]
      exact List.mem_map_of_mem hx
    have hpending : x.status = .pending := by
      simp only [DeliveryRow.due, decide_eq_true_eq] at hxdue
      exact hxdue.1
    have hahead : ahead r x = true := by
      have hprec : precedes x.nextAttemptAt x.id r = true := hbefore x hx
      simp [ahead, hpending, hne, hprec]
    exact List.mem_filter.mpr ⟨hrow, by simp [hahead, hclaim]⟩
  calc limit.toNat = (sorted.take limit.toNat).length := hlen.symm
    _ ≤ _ := (List.subperm_of_subset hnodup hsub).length_le
    _ = _ := (List.countP_eq_length_filter ..).symm

/-- An update puts ahead of `r` at most the rows it touches. -/
theorem aheadOf_updateWhere {p : DeliveryRow → Bool} {set : DeliveryRow → DeliveryRow} :
    aheadOf r (updateWhere p set rows) ≤
      aheadOf r rows + rows.countP fun x => p x && ahead r (set x) := by
  induction rows with
  | nil => simp [aheadOf, updateWhere]
  | cons x rows ih =>
    simp only [aheadOf, updateWhere, List.map_cons, List.countP_cons] at ih ⊢
    by_cases hp : p x = true
    · simp only [hp, if_true, Bool.true_and]
      omega
    · simp only [hp, if_false, Bool.false_and, Bool.false_eq_true]
      omega

/-- An update of rows that it takes out of the way leaves those alone that it does not touch. -/
theorem aheadOf_taken {p : DeliveryRow → Bool} {set : DeliveryRow → DeliveryRow}
    (hset : ∀ x ∈ rows, p x = true → ahead r (set x) = false) :
    aheadOf r (updateWhere p set rows) + rows.countP (fun x => ahead r x && p x) =
      aheadOf r rows := by
  induction rows with
  | nil => simp [aheadOf, updateWhere]
  | cons x rows ih =>
    have hrest := ih fun y hy => hset y (List.mem_cons_of_mem x hy)
    simp only [aheadOf, updateWhere, List.map_cons, List.countP_cons] at hrest ⊢
    by_cases hp : p x = true
    · have hx := hset x List.mem_cons_self hp
      simp only [hp, if_true, Bool.and_true, hx, Bool.false_eq_true, if_false]
      omega
    · simp only [hp, if_false, Bool.and_false, Bool.false_eq_true]
      omega

theorem countP_id_le_one {q : DeliveryRow → Bool} (id : Nat)
    (hn : (rows.map DeliveryRow.id).Nodup) (hq : ∀ x, q x = true → x.id = id) :
    rows.countP q ≤ 1 := by
  have hcount : (rows.map DeliveryRow.id).count id ≤ 1 := List.nodup_iff_count_le_one.mp hn id
  rw [List.count, List.countP_map] at hcount
  exact (List.countP_mono_left fun x _ hx => by simp [hq x hx]).trans hcount

/-- A claim that passes a due row by leaves fewer ahead of it. -/
theorem claimed_aheadOf {s : State ι} {d : Dispatcher} {locked : Nat → Bool}
    (hlease : 0 < d.leaseFor) (hr : r ∈ s.rows) (hdue : r.due s.clock = true)
    (hleft : claims d.batch s.clock locked s.rows r = false) (hn : (s.rows.map DeliveryRow.id).Nodup) :
    aheadOf r (claimDueDeliveries d.batch d.leaseFor s.clock locked s.rows) +
      (if locked r.id then 0 else d.batch.toNat) ≤ aheadOf r s.rows := by
  have hpast : ∀ x ∈ s.rows, claims d.batch s.clock locked s.rows x = true →
      ahead r (lease s.clock d.leaseFor x) = false := by
    intro x _ _
    have hnow : r.nextAttemptAt ≤ s.clock := by
      simp only [DeliveryRow.due, decide_eq_true_eq] at hdue
      exact hdue.2
    have hprec : precedes (s.clock + d.leaseFor) x.id r = false := by
      have hlater : r.nextAttemptAt < s.clock + d.leaseFor :=
        lt_of_le_of_lt hnow (lt_add_of_pos_right _ hlease)
      simp [precedes, not_lt.mpr hlater.le, ne_of_gt hlater]
    simp [ahead, lease, hprec]
  have hsum := aheadOf_taken hpast
  rw [claimDueDeliveries]
  by_cases hfree : locked r.id = true
  · rw [if_pos hfree]
    omega
  · have hbatch := batch_taken_ahead hr hdue (by simpa using hfree) hleft hn
    rw [if_neg hfree]
    omega

/-! ### Runs -/

/-- The deliveries that a claim which is free to take `r` takes at most. -/
def turns (ds : ι → Dispatcher) (r : DeliveryRow) : Event ι → Nat
  | .claim i locked _ | .claimLost i locked => if locked r.id then 0 else (ds i).batch.toNat
  | _ => 0

/-- The deliveries that an event can put ahead of `r`. -/
def arrivals (s : State ι) (r : DeliveryRow) : Event ι → Nat
  | .enqueue started id _ _ _ _ | .replay started id => if precedes started id r then 1 else 0
  | .report i =>
    match s.phase i with
    | .reporting _ del (.reschedule _ at') _ => if precedes at' del.id r then 1 else 0
    | _ => 0
  | _ => 0

/-- The events that end the wait of `r`: a claim takes it, or a dispatcher that had it on an
earlier claim reports its outcome. -/
def Served (ds : ι → Dispatcher) (s : State ι) (r : DeliveryRow) : Event ι → Prop
  | .claim i locked _ | .claimLost i locked => claims (ds i).batch s.clock locked s.rows r = true
  | .report i => ∃ b del report todo, s.phase i = .reporting b del report todo ∧ del.id = r.id
  | _ => False

variable [DecidableEq ι] {ds : ι → Dispatcher} {G : State ι → Event ι → Prop} {s t : State ι}
  {e : Event ι}

/-- What the claims of a run that are free to take `r` take at most. -/
def totalTurns (ds : ι → Dispatcher) (r : DeliveryRow) (moves : List (State ι × Event ι)) : Nat :=
  (moves.map fun m => turns ds r m.2).sum

/-- What a run can put ahead of `r`. -/
def totalArrivals (r : DeliveryRow) (moves : List (State ι × Event ι)) : Nat :=
  (moves.map fun m => arrivals m.1 r m.2).sum

theorem mem_updateWhere_of_not {p : DeliveryRow → Bool} {set : DeliveryRow → DeliveryRow}
    (hr : r ∈ rows) (hp : p r = false) : r ∈ updateWhere p set rows :=
  mem_updateWhere.mpr ⟨r, hr, by simp [hp]⟩

/-- A step that does not serve a due row leaves it as it is, and lets no more pass ahead of it
than arrive. -/
theorem step_waits (hlease : ∀ i, 0 < (ds i).leaseFor) (hs : Step ds s e t) (hi : Orderly s)
    (hr : r ∈ s.rows) (hdue : r.due s.clock = true) (hnot : ¬ Served ds s r e) :
    r ∈ t.rows ∧ r.due t.clock = true ∧
      aheadOf r t.rows + turns ds r e ≤ aheadOf r s.rows + arrivals s r e := by
  have hpending : r.status = .pending := by
    simp only [DeliveryRow.due, decide_eq_true_eq] at hdue
    exact hdue.1
  cases hs with
  | tick δ =>
    refine ⟨hr, ?_, by simp [turns]⟩
    simp only [DeliveryRow.due, decide_eq_true_eq] at hdue ⊢
    exact ⟨hdue.1, hdue.2.trans (le_add_of_nonneg_right (Int.natCast_nonneg δ))⟩
  | @enqueue started id hid tenantID eventType target payload =>
    refine ⟨List.mem_append_left _ hr, hdue, ?_⟩
    simp only [State.note, State.withRows, aheadOf, List.countP_append, turns, arrivals,
      List.countP_singleton]
    by_cases hprec : precedes started id r = true
    · rw [if_pos hprec]
      split <;> omega
    · have hno : ahead r (newDelivery started id tenantID eventType target payload) = false := by
        simp [ahead, newDelivery, hprec]
      simp [hno]
  | claim hidle locked hret =>
    have hleft := Bool.eq_false_iff.mpr hnot
    refine ⟨mem_updateWhere_of_not hr hleft, hdue, ?_⟩
    have hcount := claimed_aheadOf (hlease _) hr hdue hleft hi.nodup
    exact hcount.trans (Nat.le_add_right _ _)
  | claimLost hidle locked =>
    have hleft := Bool.eq_false_iff.mpr hnot
    refine ⟨mem_updateWhere_of_not hr hleft, hdue, ?_⟩
    have hcount := claimed_aheadOf (hlease _) hr hdue hleft hi.nodup
    exact hcount.trans (Nat.le_add_right _ _)
  | @report i b del report todo hphase =>
    have hne : r.id ≠ del.id := fun h => hnot ⟨b, del, report, todo, hphase, h.symm⟩
    simp only [State.setPhase, State.withRows, Report.write_eq, turns, arrivals, hphase]
    refine ⟨mem_updateWhere_of_not hr (by simp [DeliveryRow.stillPending, hne]), hdue, ?_⟩
    refine aheadOf_updateWhere.trans (Nat.add_le_add_left ?_ _)
    cases report with
    | delivered => simp [Report.set, delivered, ahead]
    | deadLetter cause => simp [Report.set, parked, ahead]
    | reschedule cause at' =>
      by_cases hprec : precedes at' del.id r = true
      · simp only [hprec, if_true]
        refine countP_id_le_one del.id hi.nodup fun x hx => ?_
        simp only [Bool.and_eq_true, DeliveryRow.stillPending, decide_eq_true_eq] at hx
        exact hx.1.1
      · simp only [hprec, Bool.false_eq_true, if_false, Nat.le_zero, List.countP_eq_zero]
        intro x _ hx
        simp only [Bool.and_eq_true, DeliveryRow.stillPending, decide_eq_true_eq, Report.set,
          ahead, rescheduled] at hx
        obtain ⟨⟨hid, -⟩, -, -, hx⟩ := hx
        exact hprec (hid ▸ hx)
  | @replay started id x hx hid hdead =>
    simp only [State.note, State.withRows, replayed, turns, arrivals]
    refine ⟨mem_updateWhere_of_not hr (by simp [hpending]), hdue, ?_⟩
    refine aheadOf_updateWhere.trans (Nat.add_le_add_left ?_ _)
    by_cases hprec : precedes started id r = true
    · simp only [hprec, if_true]
      refine countP_id_le_one id hi.nodup fun y hy => ?_
      simp only [Bool.and_eq_true, decide_eq_true_eq] at hy
      exact hy.1.1
    · rw [if_neg hprec, Nat.le_zero, List.countP_eq_zero]
      intro y _ hy
      simp only [Bool.and_eq_true, decide_eq_true_eq, ahead, requeue] at hy
      obtain ⟨⟨hid', -⟩, -, -, hy⟩ := hy
      exact hprec (hid' ▸ hy)
  | purge hidle hret now =>
    refine ⟨List.mem_filter.mpr ⟨hr, by simp [purgeable, hpending]⟩, hdue, ?_⟩
    exact (List.Sublist.countP_le List.filter_sublist).trans (Nat.le_add_right _ _)
  | start | refuse | answer | reportLost | quit => exact ⟨hr, hdue, Nat.le_add_right _ _⟩

/-- Until it is served, a due row waits as it is, and each free claim brings it nearer. -/
theorem trace_waits (hlease : ∀ i, 0 < (ds i).leaseFor) (hi : Orderly s) (hr : r ∈ s.rows)
    (hdue : r.due s.clock = true) {moves : List (State ι × Event ι)} (h : Trace ds s moves t)
    (hnot : ∀ m ∈ moves, r ∈ m.1.rows → ¬ Served ds m.1 r m.2) :
    Orderly t ∧ r ∈ t.rows ∧ r.due t.clock = true ∧
      aheadOf r t.rows + totalTurns ds r moves ≤ aheadOf r s.rows + totalArrivals r moves := by
  induction h with
  | nil => exact ⟨hi, hr, hdue, by simp [totalTurns, totalArrivals]⟩
  | @snoc moves t u e h hs ih =>
    obtain ⟨hi', hr', hdue', hcount⟩ :=
      ih fun m hm => hnot m (List.mem_append_left _ hm)
    have hlast := hnot (t, e) (by simp) hr'
    obtain ⟨hr'', hdue'', hstep⟩ := step_waits hlease hs hi' hr' hdue' hlast
    refine ⟨orderly_step hs hi', hr'', hdue'', ?_⟩
    simp only [totalTurns, totalArrivals, List.map_append, List.sum_append, List.map_cons,
      List.map_nil, List.sum_cons, List.sum_nil] at hcount ⊢
    omega

/-- A due delivery is not starved: once the claims of a run that are free to take it have room
for more than those ahead of it and those put ahead of it, it has been served. -/
theorem due_delivery_served (h : Reach ds G s)
    (hfits : ∀ i, (ds i).poll + (ds i).batch * (ds i).timeout < 2 ^ 63) (hr : r ∈ s.rows)
    (hdue : r.due s.clock = true) {moves : List (State ι × Event ι)} (hrun : Trace ds s moves t)
    (hmany : aheadOf r s.rows + totalArrivals r moves < totalTurns ds r moves) :
    ∃ m ∈ moves, r ∈ m.1.rows ∧ Served ds m.1 r m.2 := by
  by_contra hnone
  have hlease : ∀ i, 0 < (ds i).leaseFor := by
    intro i
    have hpoll := (ds i).poll_pos
    have hbatch : 0 < (ds i).batch * (ds i).timeout :=
      Int.mul_pos (ds i).batch_pos (ds i).timeout_pos
    rw [leaseFor_eq (hfits i)]
    linarith
  have hwait := trace_waits hlease (reach_orderly h) hr hdue hrun fun m hm hin hserved =>
    hnone ⟨m, hm, hin, hserved⟩
  exact absurd hmany (not_lt.mpr (by omega))

/-- Dispatchers that take one delivery at a time. -/
def oneByOne (_ : Replica) : Dispatcher := .new ⟨0, 0, 1, 0, 0, 0, 0, 0⟩

def otherEnqueue : Event Replica := .enqueue 0 2 "acme" .groupDeleted someUuid somePayload

/-- A claim whose answer is lost. -/
def someLost : Event Replica := .claimLost .left fun _ => false

theorem due_delivery_served_second : ∃ (s t u : State Replica) (r : DeliveryRow),
    Reach oneByOne (fun _ _ => True) s ∧
    Trace oneByOne s [(s, someLost), (t, someLost)] u ∧ r.id = 2 ∧ aheadOf r s.rows = 1 ∧
    ∃ m ∈ [(s, someLost), (t, someLost)], r ∈ m.1.rows ∧ Served oneByOne m.1 r m.2 := by
  obtain ⟨s, hs, hclock, hidle, hrows⟩ : ∃ s : State Replica, exec oneByOne (fun _ _ => True) .start
      [someEnqueue, otherEnqueue] = some s ∧ s.clock = 0 ∧ s.phase .left = .idle ∧
      s.rows = [newDelivery 0 1 "acme" .groupDeleted someUuid somePayload,
        newDelivery 0 2 "acme" .groupDeleted someUuid somePayload] :=
    ⟨_, rfl, rfl, rfl, rfl⟩
  have hreach := reach_exec (G := fun _ _ => True) .start hs
  have hlost : ∀ s : State Replica, s.phase .left = .idle → Step oneByOne s someLost
      (s.claimed (oneByOne .left) (fun _ => false) (.lost .left)) := fun s hidle => .claimLost hidle _
  have hrun := Trace.snoc (.snoc .nil (hlost s hidle)) (hlost _ hidle)
  refine ⟨s, _, _, newDelivery 0 2 "acme" .groupDeleted someUuid somePayload, hreach, hrun, rfl,
    ?_, due_delivery_served hreach (by decide) ?_ ?_ hrun ?_⟩
  · rw [hrows]
    decide
  · rw [hrows]
    simp
  · rw [hclock]
    decide
  · have hahead : aheadOf (newDelivery 0 2 "acme" .groupDeleted someUuid somePayload) s.rows = 1 := by
      rw [hrows]
      decide
    rw [hahead]
    simp [totalArrivals, totalTurns, arrivals, turns, someLost]
    decide

end Scimage.Webhook
