import Scimage.Webhook.Custody
import Mathlib.Data.List.Perm.Subperm
import Mathlib.Tactic.Linarith

/-! Dispatchers that keep to their time keep their claims. -/
namespace Scimage.Webhook

open Txn Store

variable {ι : Type} {d : Dispatcher} {now at' : Time} {n δ : Nat} {del : Delivery} {p : Phase}

/-- `leaseFor` is what it says as long as it fits in 64 bits. -/
theorem leaseFor_eq (h : d.poll + d.batch * d.timeout < 2 ^ 63) :
    d.leaseFor = d.poll + d.batch * d.timeout := by
  have hpoll := d.poll_pos
  have hbatch : 0 < d.batch * d.timeout := Int.mul_pos d.batch_pos d.timeout_pos
  have hsum : wrap64 (d.batch * d.timeout) = d.batch * d.timeout :=
    wrap64_of_fits (by linarith) (by linarith)
  rw [Dispatcher.leaseFor, hsum]
  exact wrap64_of_fits (by linarith) h

/-- Time that a dispatcher may still spend where it is. -/
def Phase.timely (d : Dispatcher) (δ : Nat) : Phase → Bool
  | .idle => true
  | .draining b _ | .reporting b _ _ _ => b.overhead + δ < d.poll
  | .sending b _ _ => b.sending + δ ≤ d.timeout

/-- A send takes at most the timeout, and the rest of a batch less than the poll interval. -/
def Timely (ds : ι → Dispatcher) (s : State ι) : Event ι → Prop
  | .tick δ => ∀ i, (s.phase i).timely (ds i) δ = true
  | _ => True

instance [Fintype ι] (ds : ι → Dispatcher) (s : State ι) : ∀ e, Decidable (Timely ds s e)
  | .tick δ => inferInstanceAs (Decidable (∀ i, (s.phase i).timely (ds i) δ = true))
  | .enqueue .. | .claim .. | .claimLost .. | .start .. | .refuse .. | .answer .. | .report ..
  | .reportLost .. | .quit .. | .replay .. | .purge .. => isTrue trivial

/-- How far a batch is, measured from its claim. -/
def Phase.onTime (d : Dispatcher) (now : Time) : Phase → Prop
  | .idle => True
  | .draining b todo => b.overhead < d.poll ∧ b.sent + todo.length ≤ d.batch ∧
      now ≤ b.claimedAt + b.overhead + b.sent * d.timeout
  | .sending b _ todo => b.overhead < d.poll ∧ b.sent + todo.length ≤ d.batch ∧
      b.sending ≤ d.timeout ∧
      now + d.timeout ≤ b.claimedAt + b.overhead + b.sent * d.timeout + b.sending
  | .reporting b _ _ todo => b.overhead < d.poll ∧ b.sent + todo.length ≤ d.batch ∧
      now ≤ b.claimedAt + b.overhead + b.sent * d.timeout

theorem onTime_next {b : Batch} {todo : List Delivery} (hb : b.overhead < d.poll)
    (hlen : b.sent + todo.length ≤ d.batch)
    (hnow : now ≤ b.claimedAt + b.overhead + b.sent * d.timeout) : (b.next todo).onTime d now := by
  cases todo with
  | nil => trivial
  | cons => exact ⟨hb, hlen, hnow⟩

theorem onTime_age (hp : p.onTime d now) (ht : p.timely d δ = true) :
    (p.age δ).onTime d (now + δ) := by
  cases p with
  | idle => trivial
  | draining b todo =>
    obtain ⟨hover, hlen, hnow⟩ := hp
    simp only [Phase.timely, decide_eq_true_eq] at ht
    simp only [Phase.age, Phase.onTime, Nat.cast_add]
    exact ⟨ht, hlen, by linarith⟩
  | sending b del todo =>
    obtain ⟨hover, hlen, hsending, hnow⟩ := hp
    simp only [Phase.timely, decide_eq_true_eq] at ht
    simp only [Phase.age, Phase.onTime, Nat.cast_add]
    exact ⟨hover, hlen, ht, by linarith⟩
  | reporting b del report todo =>
    obtain ⟨hover, hlen, hnow⟩ := hp
    simp only [Phase.timely, decide_eq_true_eq] at ht
    simp only [Phase.age, Phase.onTime, Nat.cast_add]
    exact ⟨ht, hlen, by linarith⟩

/-- A delivery in flight is within the lease of its claim. -/
theorem onTime_lease (hp : p.onTime d now) (h : p.Holds n at' del) :
    now < at' + (d.poll + d.batch * d.timeout) := by
  have hsent : ∀ k : Nat, (k : Int) ≤ d.batch → k * d.timeout ≤ d.batch * d.timeout :=
    fun k hk => Int.mul_le_mul_of_nonneg_right hk d.timeout_pos.le
  cases p with
  | idle => exact absurd h holds_idle
  | draining b todo =>
    obtain ⟨-, rfl, -⟩ := holds_draining.mp h
    obtain ⟨hover, hlen, hnow⟩ := hp
    have := hsent b.sent (by linarith)
    linarith
  | sending b del' todo =>
    obtain ⟨-, rfl, -⟩ := holds_sending.mp h
    obtain ⟨hover, hlen, hsending, hnow⟩ := hp
    have := hsent b.sent (by linarith)
    linarith
  | reporting b del' report todo =>
    obtain ⟨-, rfl, -⟩ := holds_reporting.mp h
    obtain ⟨hover, hlen, hnow⟩ := hp
    have := hsent b.sent (by linarith)
    linarith

/-! ### Every reachable state is on time -/

variable {s t : State ι} {e : Event ι} {locked : Nat → Bool} {returned : List Delivery}

/-- A claim returns no more than the batch. -/
theorem claimed_length (hn : (s.rows.map DeliveryRow.id).Nodup) (hr : returned.Perm
    (claimedDeliveries d.batch d.leaseFor s.clock locked s.rows)) :
    returned.length ≤ d.batch := by
  have hids : ((taken d s locked).map DeliveryRow.id).Nodup :=
    hn.sublist (List.filter_sublist.map _)
  have hsub : (taken d s locked).map DeliveryRow.id ⊆
      (dueDeliveries d.batch s.clock locked s.rows).map DeliveryRow.id := by
    intro id hid
    obtain ⟨r, hr, rfl⟩ := List.mem_map.mp hid
    exact of_decide_eq_true (List.mem_filter.mp hr).2
  have hle := (List.subperm_of_subset hids hsub).length_le
  have hlimit : (dueDeliveries d.batch s.clock locked s.rows).length ≤ d.batch.toNat :=
    List.length_take_le _ _
  have hlen : returned.length = (taken d s locked).length := by
    rw [hr.length_eq, claimedDeliveries, List.length_map, taken]
  rw [List.length_map, List.length_map] at hle
  have hbatch := Int.toNat_of_nonneg d.batch_pos.le
  omega

variable [DecidableEq ι] {ds : ι → Dispatcher}

theorem onTime_step (hs : Step ds s e t) (hg : Timely ds s e)
    (hn : (s.rows.map DeliveryRow.id).Nodup) (hi : ∀ j, (s.phase j).onTime (ds j) s.clock) :
    ∀ j, (t.phase j).onTime (ds j) t.clock := by
  intro j
  have hj := hi j
  cases hs with
  | tick δ => exact onTime_age hj (hg j)
  | claim hidle locked hr =>
    rw [State.setPhase_phase]
    split
    · rename_i hji
      subst hji
      have hlen := claimed_length hn hr
      exact onTime_next (ds j).poll_pos (by simpa using hlen)
        (by simp [State.claimed, State.setPhase, State.note, State.withRows])
    · exact hj
  | start hphase =>
    simp only [State.note, State.setPhase_phase, State.setPhase_clock]
    split
    · rename_i hji
      subst hji
      rw [hphase] at hj
      obtain ⟨hover, hlen, hnow⟩ := hj
      rw [List.length_cons, Nat.cast_succ] at hlen
      simp only [Phase.onTime, Nat.cast_add, Nat.cast_one, Nat.cast_zero, add_mul, one_mul]
      exact ⟨hover, by linarith, (ds j).timeout_pos.le, by linarith⟩
    · exact hj
  | refuse cause hphase =>
    rw [State.setPhase_phase]
    split
    · rename_i hji
      subst hji
      rw [hphase] at hj
      obtain ⟨hover, hlen, hnow⟩ := hj
      rw [List.length_cons, Nat.cast_succ] at hlen
      exact ⟨hover, by linarith, hnow⟩
    · exact hj
  | answer response now hphase hjitter =>
    simp only [State.note, State.setPhase_phase, State.setPhase_clock]
    split
    · rename_i hji
      subst hji
      rw [hphase] at hj
      obtain ⟨hover, hlen, hsending, hnow⟩ := hj
      exact ⟨hover, hlen, by linarith⟩
    · exact hj
  | report hphase | reportLost hphase =>
    rw [State.setPhase_phase]
    split
    · rename_i hji
      subst hji
      rw [hphase] at hj
      obtain ⟨hover, hlen, hnow⟩ := hj
      exact onTime_next hover hlen hnow
    · exact hj
  | quit i =>
    rw [State.setPhase_phase]
    split
    · trivial
    · exact hj
  | enqueue | claimLost | replay | purge => exact hj

/-- Only a due row is claimed, and only a dead letter is replayed. -/
theorem supersedes_step {id : Nat} {more : List (Happening ι)} {x : Happening ι}
    (hs : Step ds s e t) (hlog : s.log ++ more = t.log) (hn : (s.rows.map DeliveryRow.id).Nodup)
    (hx : x ∈ more) (hsup : x.supersedes id = true) :
    ∃ r ∈ s.rows, r.id = id ∧ (r.due s.clock = true ∨ r.status = .deadLetter) := by
  have hclaimed : ∀ (i : ι) (locked : Nat → Bool) (h : Nat → Happening ι),
      (∀ k, (h k).supersedes id = true → k = id) →
      x ∈ ((taken (ds i) s locked).map fun r => h r.id) →
        ∃ r ∈ s.rows, r.id = id ∧ (r.due s.clock = true ∨ r.status = .deadLetter) := by
    intro i locked h hk hx
    obtain ⟨r, hr, rfl⟩ := List.mem_map.mp hx
    obtain ⟨hmem, hclaims⟩ := List.mem_filter.mp hr
    exact ⟨r, hmem, hk r.id hsup, Or.inl (claims_due hn hmem hclaims)⟩
  cases hs with
  | @claim i hidle locked =>
    obtain rfl := List.append_cancel_left hlog
    exact hclaimed i locked (.claimed i) (fun k => of_decide_eq_true) hx
  | @claimLost i hidle locked =>
    obtain rfl := List.append_cancel_left hlog
    exact hclaimed i locked (.lost i) (fun k => of_decide_eq_true) hx
  | @replay started k r hr hid hdead =>
    obtain rfl := List.append_cancel_left hlog
    obtain rfl := List.mem_singleton.mp hx
    exact ⟨r, hr, hid.trans (of_decide_eq_true hsup), Or.inr hdead⟩
  | enqueue | start =>
    obtain rfl := List.append_cancel_left hlog
    obtain rfl := List.mem_singleton.mp hx
    cases hsup
  | answer response now hi hjitter =>
    obtain rfl := List.append_cancel_left hlog
    split at hx
    · obtain rfl := List.mem_singleton.mp hx
      cases hsup
    · cases hx
  | tick | refuse | report | reportLost | quit | purge =>
    obtain rfl := List.append_right_eq_self.mp hlog
    cases hx

/-- The claim is the latest, and its row waits for its outcome. -/
def Own (d : Dispatcher) (s : State ι) (n : Nat) (at' : Time) (del : Delivery) : Prop :=
  superseded n del.id s.log = false ∧ ∃ r ∈ s.rows, r.id = del.id ∧ r.status = .pending ∧
    r.attempts = del.attempts ∧ r.nextAttemptAt = at' + d.leaseFor

structure Leased (ds : ι → Dispatcher) (s : State ι) : Prop where
  onTime : ∀ j, (s.phase j).onTime (ds j) s.clock
  own : ∀ j n at' del, (s.phase j).Holds n at' del → Own (ds j) s n at' del

variable (hlease : ∀ i, (ds i).leaseFor = (ds i).poll + (ds i).batch * (ds i).timeout)
include hlease

theorem own_step (hs : Step ds s e t) (hc : Custody s) (hl : Leased ds s) :
    ∀ j n at' del, (t.phase j).Holds n at' del → Own (ds j) t n at' del := by
  intro j n at' del hholds
  rcases holds_step hs hholds with hold | ⟨locked, returned, rfl, -, -, hdel, rfl, rfl⟩
  · obtain ⟨hlatest, r, hr, hid, hp, hattempts, hnext⟩ := hl.own j n at' del hold
    -- The clock has not reached the end of the lease.
    have hnotdue : r.due s.clock = false := by
      have hlt := onTime_lease (hl.onTime j) hold
      rw [← hlease j, ← hnext] at hlt
      simp [DeliveryRow.due, hlt]
    have hunique : ∀ x ∈ s.rows, x.id = del.id → x = r := fun x hx hxid =>
      List.inj_on_of_nodup_map hc.orderly.nodup hx hr (hxid.trans hid.symm)
    constructor
    · obtain ⟨more, hmore⟩ := log_grows hs
      rw [← hmore, superseded, List.drop_append_of_le_length (hc.serial_le j n at' del hold),
        List.any_append, Bool.or_eq_false_iff]
      refine ⟨hlatest, List.any_eq_false.mpr fun x hx hsup => ?_⟩
      obtain ⟨y, hy, hyid, hdue⟩ := supersedes_step hs hmore hc.orderly.nodup hx hsup
      obtain rfl := hunique y hy hyid
      simp [hnotdue, hp] at hdue
    · rcases step_keeps hs hr with ⟨r', hr', hrid⟩ | ⟨_, _, _, hdone, _⟩
      · have hr'id : r'.id = del.id := hrid.trans hid
        refine ⟨r', hr', hr'id, ?_⟩
        obtain ⟨x, hx, hrow⟩ := step_old hs hc.orderly hr' (hr'id ▸ hc.enqueued j n at' del hold)
        obtain rfl := hunique x hx (hrow.id_eq.symm.trans hr'id)
        cases hrow with
        | same => exact ⟨hp, hattempts, hnext⟩
        | claimed he hdue htaken =>
          rw [hnotdue] at hdue
          cases hdue
        | @reported i b del' report todo r hi hid' hp' =>
          have hi' : (s.phase i).Holds b.serial b.claimedAt del' := by simp [hi]
          by_cases hij : i = j
          · subst hij
            exact absurd (hid.symm.trans hid') (report_drops hs hi (hc.nodup i) hholds)
          · rcases hc.overlap i j _ n _ at' del' del hij hi' hold (hid'.symm.trans hid) with h | h
            · rw [(hl.own i _ _ del' hi').1] at h
              cases h
            · rw [← hid', hid, hlatest] at h
              cases h
        | requeued hdead =>
          rw [hp] at hdead
          cases hdead
      · rw [hp] at hdone
        cases hdone
  · exact ⟨superseded_length, claimed_row hs hdel hc.orderly.nodup⟩

theorem reach_leased (h : Reach ds (Timely ds) s) : Leased ds s := by
  induction h with
  | start => exact ⟨fun j => trivial, fun j n at' del h => absurd h holds_idle⟩
  | step h hg hs ih =>
    have hc := reach_custody h
    exact ⟨onTime_step hs hg hc.orderly.nodup ih.onTime, own_step hlease hs hc ih⟩

/-- No delivery is in flight twice, and every report acts on the claim it belongs to. -/
theorem lease_exclusive (h : Reach ds (Timely ds) s) :
    (∀ j, ((s.phase j).inFlight.map Delivery.id).Nodup) ∧
    (∀ i j n m at' at'' del del', (s.phase i).Holds n at' del → (s.phase j).Holds m at'' del' →
      del.id = del'.id → i = j) ∧
    ∀ i b del report todo, s.phase i = .reporting b del report todo →
      superseded b.serial del.id s.log = false ∧ ∃ r ∈ s.rows, r.id = del.id ∧
        r.status = .pending ∧ r.attempts = del.attempts ∧
          r.nextAttemptAt = b.claimedAt + (ds i).leaseFor := by
  have hc := reach_custody h
  have hl := reach_leased hlease h
  refine ⟨hc.nodup, fun i j n m at' at'' del del' hi hj hid => ?_,
    fun i b del report todo hi => hl.own i _ _ del (by simp [hi])⟩
  by_contra hij
  rcases hc.overlap i j n m at' at'' del del' hij hi hj hid with hsup | hsup
  · rw [(hl.own i n at' del hi).1] at hsup
    cases hsup
  · rw [hid, (hl.own j m at'' del' hj).1] at hsup
    cases hsup

omit hlease in
/-- The send takes its whole timeout. -/
theorem lease_exclusive_slow : ∃ s : State Replica, s.clock = 10000000000 ∧
    ∃ b del report todo, s.phase .left = .reporting b del report todo ∧
      ∃ r ∈ s.rows, r.id = del.id ∧ r.status = .pending := by
  obtain ⟨s, hs, hfacts⟩ : ∃ s, exec (fun _ => tries 1) (Timely fun _ => tries 1) .start
      [someEnqueue, someClaim .left 1 0, .start .left, .tick 10000000000,
        .answer .left (.failed "receiver" "timeout") 10000000000 0] = some s ∧
      (s.clock, (s.phase .left).isReporting) =
        (10000000000, true) :=
    Option.map_eq_some_iff.mp rfl
  obtain ⟨hclock, hreporting⟩ := Prod.mk.inj hfacts
  have hall := (lease_exclusive (fun i => leaseFor_eq (by decide)) (reach_exec .start hs)).2.2
  cases hphase : s.phase .left with
  | reporting b del report todo =>
    obtain ⟨-, r, hr, hid, hp, -⟩ := hall .left b del report todo hphase
    exact ⟨s, hclock, b, del, report, todo, hphase, r, hr, hid, hp⟩
  | _ =>
    rw [hphase] at hreporting
    cases hreporting

end Scimage.Webhook
