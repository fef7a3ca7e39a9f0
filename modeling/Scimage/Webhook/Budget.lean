import Scimage.Webhook.Custody
import Mathlib.Data.List.Perm.Subperm

/-! How often a delivery is sent between two resets. -/
namespace Scimage.Webhook

open Txn Store

variable {ι : Type} {s t : State ι} {e : Event ι} {i j : ι} {n id : Nat} {del : Delivery}
  {todo : List Delivery} {b : Batch} {p : Phase}

/-! ### Who sends and who claims -/

/-- The dispatcher that starts a POST of the delivery. -/
def Happening.poster (id : Nat) : Happening ι → Option ι
  | .posted i k => if k = id then some i else none
  | _ => none

/-- The dispatcher that learns of a claim of the delivery. -/
def Happening.claimer (id : Nat) : Happening ι → Option ι
  | .claimed i k => if k = id then some i else none
  | _ => none

theorem isPost_eq (h : Happening ι) : h.isPost id = (h.poster id).isSome := by
  cases h with
  | posted i k => by_cases hk : k = id <;> simp [Happening.isPost, Happening.poster, hk]
  | _ => rfl

variable [DecidableEq ι]

/-- What holds for each name holds for all names together. -/
theorem countP_isSome_le {α : Type} {f g : α → Option ι} {xs : List α}
    (h : ∀ i, xs.countP (fun x => f x == some i) ≤ xs.countP fun x => g x == some i) :
    (xs.countP fun x => (f x).isSome) ≤ xs.countP fun x => (g x).isSome := by
  rw [← List.length_filterMap_eq_countP, ← List.length_filterMap_eq_countP]
  refine (List.subperm_ext_iff.mpr fun i _ => ?_).length_le
  rw [List.count_filterMap, List.count_filterMap]
  exact h i

/-- POSTs of the delivery that the dispatcher has started since the latest reset. -/
def sends (i : ι) (id : Nat) (log : List (Happening ι)) : Nat :=
  countSince (fun h => h.poster id == some i) id log

def answeredClaims (i : ι) (id : Nat) (log : List (Happening ι)) : Nat :=
  countSince (fun h => h.claimer id == some i) id log

/-- A POST of the delivery whose batch is older than a replay of it is out of date. -/
def Phase.stale (log : List (Happening ι)) : Phase → Bool
  | .draining b (del :: _) => (log.drop b.serial).any fun h => decide (h = .replayed del.id)
  | _ => false

/-- No row is claimed past its budget, and nothing is sent for a budget that is over. -/
def Paced (ds : ι → Dispatcher) (s : State ι) : Event ι → Prop
  | .claim i locked _ => ∀ r ∈ taken (ds i) s locked, r.attempts < (ds i).maxAttempts
  | .start i => (s.phase i).stale s.log = false
  | _ => True

instance (ds : ι → Dispatcher) (s : State ι) : ∀ e, Decidable (Paced ds s e)
  | .claim i locked _ =>
    inferInstanceAs (Decidable (∀ r ∈ taken (ds i) s locked, r.attempts < (ds i).maxAttempts))
  | .start i => inferInstanceAs (Decidable ((s.phase i).stale s.log = false))
  | .tick .. | .enqueue .. | .claimLost .. | .refuse .. | .answer .. | .report ..
  | .reportLost .. | .quit .. | .replay .. | .purge .. => isTrue trivial

/-- The POST of a delivery, claimed when the log was `n` long, has not started. -/
def Phase.Owes (p : Phase) (n : Nat) (del : Delivery) : Prop :=
  ∃ b, p.batch = some b ∧ b.serial = n ∧ del ∈ p.unsent

theorem owes_draining : (Phase.draining b todo).Owes n del ↔ b.serial = n ∧ del ∈ todo := by
  simp [Phase.Owes, Phase.batch, Phase.unsent]

theorem Phase.Owes.holds (h : p.Owes n del) : ∃ at', p.Holds n at' del := by
  obtain ⟨b, hb, hn, hdel⟩ := h
  refine ⟨b.claimedAt, b, hb, hn, rfl, ?_⟩
  cases p with
  | idle => cases hb
  | draining => exact hdel
  | sending | reporting => exact List.mem_cons_of_mem _ hdel

/-! ### What a step does to the counts -/

variable {ds : ι → Dispatcher}

/-- Only the start of a POST adds to the POSTs. -/
theorem sends_step (hs : Step ds s e t) (j : ι) (id : Nat) :
    sends j id t.log ≤ sends j id s.log ∨ ∃ b del todo, e = .start j ∧
      s.phase j = .draining b (del :: todo) ∧ t.phase j = .sending
        { b with sent := b.sent + 1, sending := 0 } del todo ∧ del.id = id ∧
      sends j id t.log = sends j id s.log + 1 := by
  have hquiet : ∀ more : List (Happening ι), (∀ h ∈ more, h.poster id = none) →
      sends j id (s.log ++ more) ≤ sends j id s.log := by
    intro more
    induction more using List.reverseRecOn with
    | nil => simp
    | append_singleton more h ih =>
      intro hmore
      have hle := ih fun x hx => hmore x (List.mem_append_left _ hx)
      rw [← List.append_assoc, sends, countSince_snoc, hmore h (by simp)]
      split
      · exact Nat.zero_le _
      · exact hle
  cases hs with
  | @start i b del todo hi =>
    by_cases h : i = j ∧ del.id = id
    · obtain ⟨rfl, rfl⟩ := h
      refine Or.inr ⟨b, del, todo, rfl, hi, ?_, rfl, ?_⟩
      · rw [State.note, State.setPhase_phase, if_pos rfl]
      · rw [State.note, sends, countSince_snoc]
        simp [Happening.resets, Happening.poster, sends, State.setPhase]
    · refine Or.inl ?_
      rw [State.note, sends, countSince_snoc]
      have hother : ((Happening.posted i del.id).poster id == some j) = false := by
        simp only [Happening.poster]
        split <;> simp_all
      rw [hother]
      simp [Happening.resets, sends, State.setPhase]
  | enqueue => exact Or.inl (hquiet _ (by simp [Happening.poster]))
  | claim => exact Or.inl (hquiet _ (by simp [Happening.poster]))
  | claimLost => exact Or.inl (hquiet _ (by simp [Happening.poster]))
  | answer =>
    refine Or.inl (hquiet _ ?_)
    split <;> simp [Happening.poster]
  | replay => exact Or.inl (hquiet _ (by simp [Happening.poster]))
  | tick | refuse | report | reportLost | quit | purge => exact Or.inl le_rfl

/-- Only a reset takes claims away, and it takes the POSTs with them. -/
theorem answeredClaims_step (hs : Step ds s e t) (j : ι) (id : Nat) :
    answeredClaims j id s.log ≤ answeredClaims j id t.log ∨
      (.enqueued id ∉ s.log ∨ ∃ started, e = .replay started id) ∧ sends j id t.log = 0 := by
  have hmore : ∀ more : List (Happening ι), (∀ h ∈ more, h.resets id = false) →
      answeredClaims j id s.log ≤ answeredClaims j id (s.log ++ more) := by
    intro more h
    rw [answeredClaims, answeredClaims, countSince_append _ _ h]
    exact Nat.le_add_right _ _
  cases hs with
  | @enqueue started k hid =>
    by_cases hk : k = id
    · subst hk
      refine Or.inr ⟨Or.inl hid, ?_⟩
      rw [State.note, sends, countSince_snoc]
      simp [Happening.resets]
    · exact Or.inl (hmore _ (by simp [Happening.resets, hk]))
  | @replay started k =>
    by_cases hk : k = id
    · subst hk
      refine Or.inr ⟨Or.inr ⟨started, rfl⟩, ?_⟩
      rw [State.note, sends, countSince_snoc]
      simp [Happening.resets]
    · exact Or.inl (hmore _ (by simp [Happening.resets, hk]))
  | claim | claimLost | start => exact Or.inl (hmore _ (by simp [Happening.resets]))
  | answer =>
    refine Or.inl (hmore _ ?_)
    split <;> simp [Happening.resets]
  | tick | refuse | report | reportLost | quit | purge => exact Or.inl le_rfl

/-- A claim whose answer arrives counts for each delivery that it returns. -/
theorem returned_answered {locked : Nat → Bool} {returned : List Delivery}
    (hs : Step ds s (.claim j locked returned) t) (hdel : del ∈ returned) (hr : returned.Perm
      (claimedDeliveries (ds j).batch (ds j).leaseFor s.clock locked s.rows)) :
    answeredClaims j del.id s.log < answeredClaims j del.id t.log := by
  cases hs with
  | claim hi locked hr' =>
    have hpos := (List.countP_pos_iff (p := fun h : Happening ι => h.claimer del.id == some j)).mpr
      ⟨_, mem_claimed_id hr hdel (.claimed j), by simp [Happening.claimer]⟩
    simp only [State.claimed, State.setPhase, State.note, State.withRows, answeredClaims]
    rw [countSince_append _ _ (by simp [Happening.resets])]
    omega

theorem owes_step (hs : Step ds s e t) (h : (t.phase j).Owes n del) :
    (s.phase j).Owes n del ∨ ∃ locked returned, e = .claim j locked returned ∧ returned.Perm
      (claimedDeliveries (ds j).batch (ds j).leaseFor s.clock locked s.rows) ∧
      del ∈ returned ∧ n = t.log.length := by
  obtain ⟨b, hb, hn, hdel⟩ := h
  rcases phase_step hs j with ⟨hbatch, -, hunsent⟩ | ⟨locked, returned, he, -, hr, hphase⟩
  · obtain ⟨b', hb', hserial, -⟩ := hbatch b hb
    exact Or.inl ⟨b', hb', hserial.trans hn, hunsent.subset hdel⟩
  · rw [hphase] at hb hdel
    cases returned with
    | nil => cases hb
    | cons first rest =>
      obtain rfl := Option.some.inj hb
      exact Or.inr ⟨locked, first :: rest, he, hr, hdel, hn.symm⟩

/-! ### Runs that keep to their budgets -/

structure Paid (M : Int) (s : State ι) : Prop where
  sent : ∀ i id, sends i id s.log ≤ answeredClaims i id s.log
  /-- A POST that is still to come has its own claim. -/
  owed : ∀ i n del, (s.phase i).Owes n del → .replayed del.id ∉ s.log.drop n →
    sends i del.id s.log < answeredClaims i del.id s.log
  counted : ∀ i n del, (s.phase i).Owes n del → del.attempts ≤ M
  within : ∀ id, countSince (fun h => (h.claimer id).isSome) id s.log ≤ M

theorem sent_step {M : Int} (hs : Step ds s e t) (hg : Paced ds s e) (hp : Paid M s) (j : ι)
    (id : Nat) : sends j id t.log ≤ answeredClaims j id t.log := by
  have hold := hp.sent j id
  rcases answeredClaims_step hs j id with hclaims | ⟨-, hzero⟩
  · rcases sends_step hs j id with hsends | ⟨b, del, todo, rfl, hphase, -, rfl, hsends⟩
    · omega
    · have howes : (s.phase j).Owes b.serial del := by
        rw [hphase]
        exact owes_draining.mpr ⟨rfl, List.mem_cons_self⟩
      have hlive : .replayed del.id ∉ s.log.drop b.serial := by
        intro hmem
        have hnone : ∀ x ∈ s.log.drop b.serial, ¬ x = .replayed del.id := by
          simpa [Paced, Phase.stale, hphase] using hg
        exact hnone _ hmem rfl
      have := hp.owed j b.serial del howes hlive
      omega
  · omega

theorem owed_step {M : Int} (hs : Step ds s e t) (hc : Custody s) (hp : Paid M s) (j : ι) (n : Nat)
    (del : Delivery) (howes : (t.phase j).Owes n del) (hlive : .replayed del.id ∉ t.log.drop n) :
    sends j del.id t.log < answeredClaims j del.id t.log := by
  rcases owes_step hs howes with hold | ⟨locked, returned, rfl, hr, hdel, rfl⟩
  · obtain ⟨at', hholds⟩ := hold.holds
    have hlive' : .replayed del.id ∉ s.log.drop n := by
      obtain ⟨more, hmore⟩ := log_grows hs
      rw [← hmore, List.drop_append] at hlive
      exact fun h => hlive (List.mem_append_left _ h)
    have hlt := hp.owed j n del hold hlive'
    rcases answeredClaims_step hs j del.id with hclaims | ⟨hreset, -⟩
    · rcases sends_step hs j del.id with hsends | ⟨b, del', todo, rfl, hphase, hafter, hid, -⟩
      · omega
      · -- The batch has this delivery only once.
        rw [hafter] at howes
        obtain ⟨b', -, -, hmem⟩ := howes
        have hnodup := hc.nodup j
        rw [hphase] at hnodup
        exact absurd (List.mem_map.mpr ⟨del, hmem, hid.symm⟩) (List.nodup_cons.mp hnodup).1
    · rcases hreset with hfresh | ⟨started, rfl⟩
      · exact absurd (hc.enqueued j n at' del hholds) hfresh
      · cases hs with
        | replay started hr hid hdead =>
          simp only [State.note, State.withRows] at hlive
          rw [List.drop_append_of_le_length (hc.serial_le j n at' del hholds)] at hlive
          exact absurd (List.mem_append_right _ (List.mem_singleton_self _)) hlive
  · have hclaims := returned_answered hs hdel hr
    have hold := hp.sent j del.id
    rcases sends_step hs j del.id with hsends | ⟨_, _, _, he, _⟩
    · omega
    · cases he

theorem counted_owed_step {M : Int} (hM : ∀ i, (ds i).maxAttempts = M) (hs : Step ds s e t)
    (hg : Paced ds s e) (hp : Paid M s) (j : ι) (n : Nat) (del : Delivery)
    (howes : (t.phase j).Owes n del) : del.attempts ≤ M := by
  rcases owes_step hs howes with hold | ⟨locked, returned, rfl, hr, hdel, -⟩
  · exact hp.counted j n del hold
  · obtain ⟨r, hr, rfl⟩ := (mem_claimed hr).mp hdel
    have hlt := hg r hr
    rw [hM j] at hlt
    exact hlt

theorem within_step {M : Int} (hM : ∀ i, (ds i).maxAttempts = M) (hs : Step ds s e t)
    (hg : Paced ds s e) (hc : Custody s) (hp : Paid M s) (id : Nat) :
    countSince (fun h => (h.claimer id).isSome) id t.log ≤ M := by
  have hold := hp.within id
  have hquiet : ∀ more : List (Happening ι), (∀ h ∈ more, h.claimer id = none) →
      countSince (fun h => (h.claimer id).isSome) id (s.log ++ more) ≤ M := by
    intro more
    induction more using List.reverseRecOn with
    | nil => simpa using hold
    | append_singleton more h ih =>
      intro hmore
      have hle := ih fun x hx => hmore x (List.mem_append_left _ hx)
      rw [← List.append_assoc, countSince_snoc, hmore h (by simp)]
      split
      · omega
      · exact hle
  cases hs with
  | @claim i hi locked returned hr =>
    by_cases hid : id ∈ (taken (ds i) s locked).map DeliveryRow.id
    · obtain ⟨r, hr, rfl⟩ := List.mem_map.mp hid
      have hlt : r.attempts < M := hM i ▸ hg r hr
      obtain ⟨hmem, hclaims⟩ := List.mem_filter.mp hr
      have hall : countSince (fun h => (h.claimer r.id).isSome) r.id s.log ≤ r.attempts := by
        rw [hc.orderly.counted r hmem]
        refine List.countP_mono_left fun h _ hclaimer => ?_
        cases h with
        | claimed i k =>
          by_contra hk
          simp_all [Happening.claimer, Happening.isClaim]
        | _ => cases hclaimer
      simp only [State.claimed, State.setPhase, State.note, State.withRows]
      rw [countSince_append _ _ (by simp [Happening.resets]), taken_countP _ hc.orderly.nodup hmem,
        if_pos hclaims]
      · omega
      · intro k
        by_cases hk : k = r.id <;> simp [Happening.claimer, hk]
    · refine hquiet _ fun h hh => ?_
      obtain ⟨r, hr, rfl⟩ := List.mem_map.mp hh
      have hne : r.id ≠ id := fun he => hid (List.mem_map.mpr ⟨r, hr, he⟩)
      simp [Happening.claimer, hne]
  | enqueue => exact hquiet _ (by simp [Happening.claimer])
  | claimLost => exact hquiet _ (by simp [Happening.claimer])
  | start => exact hquiet _ (by simp [Happening.claimer])
  | answer =>
    refine hquiet _ ?_
    split <;> simp [Happening.claimer]
  | replay => exact hquiet _ (by simp [Happening.claimer])
  | tick | refuse | report | reportLost | quit | purge => exact hold

theorem reach_paid {M : Int} (hM : ∀ i, (ds i).maxAttempts = M) (hpos : 0 ≤ M)
    (h : Reach ds (Paced ds) s) : Paid M s := by
  induction h with
  | start =>
    have hnone : ∀ i n del, ¬ ((State.start : State ι).phase i).Owes n del := by
      rintro i n del ⟨b, hb, -⟩
      cases hb
    exact ⟨fun i id => le_rfl, fun i n del h => absurd h (hnone i n del),
      fun i n del h => absurd h (hnone i n del), fun id => hpos⟩
  | step h hg hs ih =>
    have hc := reach_custody h
    exact ⟨sent_step hs hg ih, fun j n del => owed_step hs hc ih j n del,
      fun j n del => counted_owed_step hM hs hg ih j n del, within_step hM hs hg hc ih⟩

/-- Where no row is claimed past its budget and nothing is sent for a budget that is over, a
delivery is sent at most `M` times between two resets, by claims that were counted. -/
theorem posts_within_budget {M : Int} (hM : ∀ i, (ds i).maxAttempts = M) (hpos : 1 ≤ M)
    (h : Reach ds (Paced ds) s) :
    (∀ id, countSince (Happening.isPost id) id s.log ≤ M) ∧
      ∀ i b del todo, s.phase i = .draining b (del :: todo) → del.attempts ≤ M := by
  have hp := reach_paid hM (by omega) h
  refine ⟨fun id => ?_, fun i b del todo hi => hp.counted i b.serial del ?_⟩
  · have hle : ((since id s.log).countP fun h => (h.poster id).isSome) ≤
        (since id s.log).countP fun h => (h.claimer id).isSome :=
      countP_isSome_le fun i => hp.sent i id
    have hposts : countSince (Happening.isPost id) id s.log =
        (since id s.log).countP fun h => (h.poster id).isSome :=
      List.countP_congr fun h _ => by rw [isPost_eq]
    have hwithin := hp.within id
    rw [countSince] at hwithin
    omega
  · rw [hi]
    exact owes_draining.mpr ⟨rfl, List.mem_cons_self⟩

/-- The send kills its dispatcher. -/
def crashed : List (Event Replica) :=
  [someEnqueue, someClaim .left 1 0, .start .left, .quit .left]

/-- A budget of one, and a second POST. -/
theorem crashed_send_repeats : ∃ s : State Replica,
    Reach (fun _ => tries 1) (fun _ _ => True) s ∧
      countSince (Happening.isPost 1) 1 s.log = 2 ∧ s.rows.map DeliveryRow.attempts = [2] := by
  obtain ⟨s, hs, hfacts⟩ : ∃ s, exec (fun _ => tries 1) (fun _ _ => True) .start
      (crashed ++ [.tick 205000000000, someClaim .right 2 205000000000, .start .right]) = some s ∧
      (countSince (Happening.isPost 1) 1 s.log, s.rows.map DeliveryRow.attempts) = (2, [2]) :=
    Option.map_eq_some_iff.mp rfl
  obtain ⟨hposts, hattempts⟩ := Prod.mk.inj hfacts
  exact ⟨s, reach_exec .start hs, hposts, hattempts⟩

theorem posts_within_budget_crashed : ∃ s : State Replica,
    Reach (fun _ => tries 1) (Paced fun _ => tries 1) s ∧ s.rows.map DeliveryRow.attempts = [1] ∧
      ∀ id, countSince (Happening.isPost id) id s.log ≤ (1 : Int) := by
  obtain ⟨s, hs, hfacts⟩ : ∃ s, exec (fun _ => tries 1) (Paced fun _ => tries 1) .start
      (crashed ++ [.tick 205000000000]) = some s ∧ s.rows.map DeliveryRow.attempts = [1] :=
    Option.map_eq_some_iff.mp rfl
  have hreach := reach_exec .start hs
  exact ⟨s, hreach, hfacts, (posts_within_budget (fun _ => rfl) le_rfl hreach).1⟩

end Scimage.Webhook
