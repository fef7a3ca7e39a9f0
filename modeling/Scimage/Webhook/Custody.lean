import Scimage.Webhook.Lifecycle

/-! Who holds a delivery, and which claim is the latest. -/
namespace Scimage.Webhook

open Txn Store

variable {ι : Type} {n m : Nat} {at' : Time} {del : Delivery} {id : Nat}

/-- A delivery is in flight, claimed at `at'` when the log had grown to `n`. -/
def Phase.Holds (p : Phase) (n : Nat) (at' : Time) (del : Delivery) : Prop :=
  ∃ b, p.batch = some b ∧ b.serial = n ∧ b.claimedAt = at' ∧ del ∈ p.inFlight

section Phase

variable {b : Batch} {todo : List Delivery} {del' : Delivery} {r : Report}

@[simp] theorem holds_idle : ¬ Phase.idle.Holds n at' del := by
  simp [Phase.Holds, Phase.batch]

@[simp] theorem holds_draining : (Phase.draining b todo).Holds n at' del ↔
    b.serial = n ∧ b.claimedAt = at' ∧ del ∈ todo := by
  simp [Phase.Holds, Phase.batch, Phase.inFlight]

@[simp] theorem holds_sending : (Phase.sending b del' todo).Holds n at' del ↔
    b.serial = n ∧ b.claimedAt = at' ∧ (del = del' ∨ del ∈ todo) := by
  simp [Phase.Holds, Phase.batch, Phase.inFlight]

@[simp] theorem holds_reporting : (Phase.reporting b del' r todo).Holds n at' del ↔
    b.serial = n ∧ b.claimedAt = at' ∧ (del = del' ∨ del ∈ todo) := by
  simp [Phase.Holds, Phase.batch, Phase.inFlight]

@[simp] theorem holds_next : (b.next todo).Holds n at' del ↔
    b.serial = n ∧ b.claimedAt = at' ∧ del ∈ todo := by
  cases todo with
  | nil => simp [Batch.next]
  | cons => exact holds_draining

@[simp] theorem inFlight_next : (b.next todo).inFlight = todo := by
  cases todo <;> rfl

end Phase

/-- `q` is at the same batch as `p`, or past it. -/
def Phase.Continues (p q : Phase) : Prop :=
  (∀ b ∈ q.batch, ∃ b' ∈ p.batch, b'.serial = b.serial ∧ b'.claimedAt = b.claimedAt) ∧
    q.inFlight.Sublist p.inFlight ∧ q.unsent.Sublist p.unsent

theorem Phase.Continues.refl (p : Phase) : p.Continues p :=
  ⟨fun b hb => ⟨b, hb, rfl, rfl⟩, List.Sublist.refl _, List.Sublist.refl _⟩

theorem Phase.Continues.holds {p q : Phase} (h : p.Continues q) (hq : q.Holds n at' del) :
    p.Holds n at' del := by
  obtain ⟨b, hb, rfl, rfl, hdel⟩ := hq
  obtain ⟨b', hb', hserial, hat⟩ := h.1 b hb
  exact ⟨b', hb', hserial, hat, h.2.1.subset hdel⟩

/-! ### Newer claims and replays -/

/-- The happening gives the delivery to another claim or to a new budget. -/
def Happening.supersedes (id : Nat) : Happening ι → Bool
  | .claimed _ k | .lost _ k | .replayed k => k = id
  | _ => false

/-- A claim made when the log was `n` long is not the latest word on the delivery. -/
def superseded (n id : Nat) (log : List (Happening ι)) : Bool :=
  (log.drop n).any (Happening.supersedes id)

variable {log log' more : List (Happening ι)}

theorem superseded_mono (h : log <+: log') (hsup : superseded n id log = true) :
    superseded n id log' = true := by
  obtain ⟨more, rfl⟩ := h
  rw [superseded, List.drop_append, List.any_append]
  exact Bool.or_eq_true_iff.mpr (Or.inl hsup)

theorem superseded_append {h : Happening ι} (hn : n ≤ log.length) (hh : h ∈ more)
    (hsup : h.supersedes id = true) : superseded n id (log ++ more) = true := by
  rw [superseded, List.drop_append_of_le_length hn, List.any_append]
  exact Bool.or_eq_true_iff.mpr (Or.inr (List.any_eq_true.mpr ⟨h, hh, hsup⟩))

@[simp] theorem superseded_length : superseded log.length id log = false := by
  simp [superseded]

/-! ### What a claim returns -/

variable {s t : State ι} {e : Event ι} {d : Dispatcher} {locked : Nat → Bool}
  {returned : List Delivery} {r : DeliveryRow}

/-- The deliveries that a claim returns are the rows that it takes, as it leaves them. -/
theorem mem_claimed (hr : returned.Perm
    (claimedDeliveries d.batch d.leaseFor s.clock locked s.rows)) :
    del ∈ returned ↔ ∃ r ∈ taken d s locked, scanDelivery (lease s.clock d.leaseFor r) = del :=
  hr.mem_iff.trans List.mem_map

theorem nodup_claimed (hn : (s.rows.map DeliveryRow.id).Nodup) (hr : returned.Perm
    (claimedDeliveries d.batch d.leaseFor s.clock locked s.rows)) :
    (returned.map Delivery.id).Nodup := by
  have hids : (claimedDeliveries d.batch d.leaseFor s.clock locked s.rows).map Delivery.id =
      (taken d s locked).map DeliveryRow.id := by
    rw [claimedDeliveries, List.map_map]
    rfl
  rw [(hr.map Delivery.id).nodup_iff, hids]
  exact hn.sublist (List.filter_sublist.map _)

theorem mem_claimed_id (hr : returned.Perm
    (claimedDeliveries d.batch d.leaseFor s.clock locked s.rows)) (hdel : del ∈ returned)
    (h : Nat → Happening ι) : h del.id ∈ (taken d s locked).map fun r => h r.id := by
  obtain ⟨r, hr, rfl⟩ := (mem_claimed hr).mp hdel
  exact List.mem_map.mpr ⟨r, hr, rfl⟩

variable [DecidableEq ι] {ds : ι → Dispatcher} {i j : ι}

/-- A step that is no claim by the dispatcher goes on with its batch or drops it. -/
theorem phase_step (hs : Step ds s e t) (j : ι) : (s.phase j).Continues (t.phase j) ∨
    ∃ locked returned, e = .claim j locked returned ∧ s.phase j = .idle ∧ returned.Perm
      (claimedDeliveries (ds j).batch (ds j).leaseFor s.clock locked s.rows) ∧
      t.phase j = Batch.next ⟨t.log.length, s.clock, 0, 0, 0⟩ returned := by
  have hsame : (s.phase j).Continues (s.phase j) := .refl _
  cases hs with
  | tick δ =>
    refine Or.inl ?_
    change (s.phase j).Continues ((s.phase j).age δ)
    cases s.phase j <;> simp [Phase.Continues, Phase.age, Phase.batch, Phase.inFlight, Phase.unsent]
  | @claim i hi locked returned hr =>
    rw [State.setPhase_phase]
    split
    · rename_i hji
      subst hji
      exact Or.inr ⟨locked, returned, rfl, hi, hr, rfl⟩
    · exact Or.inl hsame
  | start hi =>
    refine Or.inl ?_
    simp only [State.note, State.setPhase_phase]
    split
    · rename_i hji
      rw [hji, hi]
      simp [Phase.Continues, Phase.batch, Phase.inFlight, Phase.unsent]
    · exact hsame
  | refuse cause hi =>
    refine Or.inl ?_
    rw [State.setPhase_phase]
    split
    · rename_i hji
      rw [hji, hi]
      simp [Phase.Continues, Phase.batch, Phase.inFlight, Phase.unsent]
    · exact hsame
  | answer response now hi hjitter =>
    refine Or.inl ?_
    simp only [State.note, State.setPhase_phase]
    split
    · rename_i hji
      rw [hji, hi]
      simp [Phase.Continues, Phase.batch, Phase.inFlight, Phase.unsent]
    · exact hsame
  | @report i b del r todo hi | @reportLost i b del r todo hi =>
    refine Or.inl ?_
    rw [State.setPhase_phase]
    split
    · rename_i hji
      rw [hji, hi]
      cases todo <;> simp [Phase.Continues, Batch.next, Phase.batch, Phase.inFlight, Phase.unsent]
    · exact hsame
  | quit i =>
    refine Or.inl ?_
    rw [State.setPhase_phase]
    split
    · simp [Phase.Continues, Phase.batch, Phase.inFlight, Phase.unsent]
    · exact hsame
  | enqueue | claimLost | replay | purge => exact Or.inl hsame

/-- A delivery in flight was in flight before, or has just been claimed. -/
theorem holds_step (hs : Step ds s e t) (h : (t.phase j).Holds n at' del) :
    (s.phase j).Holds n at' del ∨ ∃ locked returned, e = .claim j locked returned ∧
      s.phase j = .idle ∧ returned.Perm
        (claimedDeliveries (ds j).batch (ds j).leaseFor s.clock locked s.rows) ∧
      del ∈ returned ∧ n = t.log.length ∧ at' = s.clock := by
  rcases phase_step hs j with hcont | ⟨locked, returned, he, hidle, hr, hphase⟩
  · exact Or.inl (hcont.holds h)
  · rw [hphase] at h
    obtain ⟨rfl, rfl, hdel⟩ := holds_next.mp h
    exact Or.inr ⟨locked, returned, he, hidle, hr, hdel, rfl, rfl⟩

theorem inFlight_nodup_step (hs : Step ds s e t) (hn : (s.rows.map DeliveryRow.id).Nodup)
    (h : ((s.phase j).inFlight.map Delivery.id).Nodup) :
    ((t.phase j).inFlight.map Delivery.id).Nodup := by
  rcases phase_step hs j with hcont | ⟨_, _, _, _, hr, hphase⟩
  · exact h.sublist (hcont.2.1.map Delivery.id)
  · rw [hphase, inFlight_next]
    exact nodup_claimed hn hr

/-- A claim leaves its deliveries pending, with its attempt and its lease. -/
theorem claimed_row (hs : Step ds s (.claim j locked returned) t) (hdel : del ∈ returned)
    (hn : (s.rows.map DeliveryRow.id).Nodup) : ∃ r ∈ t.rows, r.id = del.id ∧
      r.status = .pending ∧ r.attempts = del.attempts ∧
        r.nextAttemptAt = s.clock + (ds j).leaseFor := by
  cases hs with
  | claim hi locked hr =>
    obtain ⟨r, hr, rfl⟩ := (mem_claimed hr).mp hdel
    obtain ⟨hmem, hclaims⟩ := List.mem_filter.mp hr
    have hdue := claims_due hn hmem hclaims
    simp only [DeliveryRow.due, decide_eq_true_eq] at hdue
    exact ⟨_, mem_updateWhere.mpr ⟨r, hmem, if_pos hclaims⟩, rfl, hdue.1, rfl, rfl⟩

/-- The delivery reported is not in flight any more. -/
theorem report_drops {b : Batch} {del' : Delivery} {report : Report} {todo : List Delivery}
    (hs : Step ds s (.report i) t) (hi : s.phase i = .reporting b del' report todo)
    (hn : ((s.phase i).inFlight.map Delivery.id).Nodup) (h : (t.phase i).Holds n at' del) :
    del.id ≠ del'.id := by
  cases hs with
  | report hphase =>
    obtain ⟨rfl, rfl, rfl, rfl⟩ := Phase.reporting.inj (hi.symm.trans hphase)
    rw [State.setPhase_phase, if_pos rfl, holds_next] at h
    rw [hi] at hn
    intro hid
    exact (List.nodup_cons.mp hn).1 (List.mem_map.mpr ⟨del, h.2.2, hid⟩)

/-! ### What every reachable state keeps of the deliveries in flight -/

structure Custody (s : State ι) : Prop where
  orderly : Orderly s
  serial_le : ∀ j n at' del, (s.phase j).Holds n at' del → n ≤ s.log.length
  enqueued : ∀ j n at' del, (s.phase j).Holds n at' del → .enqueued del.id ∈ s.log
  nodup : ∀ j, ((s.phase j).inFlight.map Delivery.id).Nodup
  /-- Of two dispatchers with one delivery, one has the older claim. -/
  overlap : ∀ i j n m at' at'' del del', i ≠ j → (s.phase i).Holds n at' del →
    (s.phase j).Holds m at'' del' → del.id = del'.id →
      superseded n del.id s.log = true ∨ superseded m del.id s.log = true
  /-- A delivery with no claim since its reset was reset after every claim in flight. -/
  unclaimed : ∀ j n at' del, (s.phase j).Holds n at' del →
    countSince (Happening.isClaim del.id) del.id s.log = 0 → superseded n del.id s.log = true

theorem enqueued_fresh (hs : Step ds s e t) (hlog : s.log ++ more = t.log)
    (h : .enqueued id ∈ more) : .enqueued id ∉ s.log := by
  cases hs with
  | enqueue started hid =>
    obtain rfl := List.append_cancel_left hlog
    simp only [List.mem_singleton, Happening.enqueued.injEq] at h
    exact h ▸ hid
  | claim | claimLost | start | replay =>
    obtain rfl := List.append_cancel_left hlog
    simp at h
  | answer response now hi hjitter =>
    obtain rfl := List.append_cancel_left hlog
    split at h <;> simp at h
  | tick | refuse | report | reportLost | quit | purge =>
    obtain rfl := List.append_right_eq_self.mp hlog
    simp at h

/-- A claim is newer than every other claim of the rows that it takes. -/
theorem claim_supersedes (hs : Step ds s e t)
    (he : e = .claimLost i locked ∨ ∃ returned, e = .claim i locked returned)
    (hr : r ∈ taken (ds i) s locked) (hn : n ≤ s.log.length) :
    superseded n r.id t.log = true := by
  rcases he with rfl | ⟨returned, rfl⟩
  · cases hs with
    | claimLost hi locked =>
      exact superseded_append hn (List.mem_map.mpr ⟨r, hr, rfl⟩) (by simp [Happening.supersedes])
  · cases hs with
    | claim hi locked hreturned =>
      exact superseded_append hn (List.mem_map.mpr ⟨r, hr, rfl⟩) (by simp [Happening.supersedes])

theorem returned_supersedes (hs : Step ds s (.claim i locked returned) t) (hdel : del ∈ returned)
    (hr : returned.Perm (claimedDeliveries (ds i).batch (ds i).leaseFor s.clock locked s.rows))
    (hn : n ≤ s.log.length) : superseded n del.id t.log = true := by
  obtain ⟨r, hmem, rfl⟩ := (mem_claimed hr).mp hdel
  exact claim_supersedes (r := r) hs (Or.inr ⟨returned, rfl⟩) hmem hn

theorem custody_step (hs : Step ds s e t) (hc : Custody s) : Custody t := by
  have hgrows := log_grows hs
  refine ⟨orderly_step hs hc.orderly, fun j n at' del h => ?_, fun j n at' del h => ?_,
    fun j => inFlight_nodup_step hs hc.orderly.nodup (hc.nodup j),
    fun i j n m at' at'' del del' hij hi hj hid => ?_, fun j n at' del h hcount => ?_⟩
  · rcases holds_step hs h with h | ⟨_, _, _, _, _, _, rfl, _⟩
    · exact (hc.serial_le j n at' del h).trans hgrows.length_le
    · exact le_rfl
  · rcases holds_step hs h with h | ⟨_, _, _, _, hr, hdel, _, _⟩
    · exact hgrows.subset (hc.enqueued j n at' del h)
    · obtain ⟨r, hr, rfl⟩ := (mem_claimed hr).mp hdel
      exact hgrows.subset (hc.orderly.enqueued r (List.mem_of_mem_filter hr))
  · rcases holds_step hs hi with hi | ⟨_, _, rfl, _, hr, hdel, _, _⟩
    · rcases holds_step hs hj with hj | ⟨_, _, rfl, _, hr, hdel, _, _⟩
      · exact (hc.overlap i j n m at' at'' del del' hij hi hj hid).imp (superseded_mono hgrows)
          (superseded_mono hgrows)
      · rw [hid]
        exact Or.inl (returned_supersedes hs hdel hr (hc.serial_le i n at' del hi))
    · rcases holds_step hs hj with hj | ⟨_, _, he, _⟩
      · exact Or.inr (returned_supersedes hs hdel hr (hc.serial_le j m at'' del' hj))
      · cases he
        exact absurd rfl hij
  · obtain ⟨more, hmore⟩ := hgrows
    rcases holds_step hs h with hold | ⟨_, _, rfl, _, hr, hdel, _, _⟩
    · by_cases hreset : ∃ x ∈ more, x.resets del.id = true
      · obtain ⟨x, hx, hreset⟩ := hreset
        have hlen := hc.serial_le j n at' del hold
        cases x with
        | enqueued k =>
          obtain rfl : k = del.id := of_decide_eq_true hreset
          exact absurd (hc.enqueued j n at' del hold) (enqueued_fresh hs hmore hx)
        | replayed k => exact hmore ▸ superseded_append hlen hx hreset
        | _ => cases hreset
      · rw [← hmore, countSince_append _ _ (by simpa using hreset)] at hcount
        exact superseded_mono ⟨more, hmore⟩ (hc.unclaimed j n at' del hold (by omega))
    · cases hs with
      | claim hi locked hr =>
        have hpos := List.countP_pos_iff.mpr ⟨_, mem_claimed_id hr hdel (.claimed j),
          (by simp [Happening.isClaim] : (Happening.claimed j del.id).isClaim del.id = true)⟩
        simp only [State.claimed, State.setPhase, State.note] at hcount
        rw [countSince_append _ _ (by simp [Happening.resets])] at hcount
        omega

variable {G : State ι → Event ι → Prop}

theorem reach_custody (h : Reach ds G s) : Custody s := by
  induction h with
  | start =>
    have hnone : ∀ j n at' del, ¬ ((State.start : State ι).phase j).Holds n at' del :=
      fun _ _ _ _ => holds_idle
    exact ⟨reach_orderly (.start : Reach ds G .start), fun j n at' del h => absurd h (hnone _ _ _ _),
      fun j n at' del h => absurd h (hnone _ _ _ _), fun j => List.nodup_nil,
      fun i j n m at' at'' del del' hij h => absurd h (hnone _ _ _ _),
      fun j n at' del h => absurd h (hnone _ _ _ _)⟩
  | step h hg hs ih => exact custody_step hs ih

end Scimage.Webhook
