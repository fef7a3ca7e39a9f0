import Scimage.Webhook.Custody

/-! What becomes of what is queued: it is kept until it is accepted, and sent as it was queued. -/
namespace Scimage.Webhook

open Txn Store

variable {ι : Type} [DecidableEq ι] {ds : ι → Dispatcher} {s t : State ι} {e : Event ι}

/-- A run, as the events in it and the states they happen in. -/
inductive Trace (ds : ι → Dispatcher) (s : State ι) :
    List (State ι × Event ι) → State ι → Prop where
  | nil : Trace ds s [] s
  | snoc {moves : List (State ι × Event ι)} {t u : State ι} {e : Event ι}
      (h : Trace ds s moves t) (hs : Step ds t e u) : Trace ds s (moves ++ [(t, e)]) u

variable {moves more : List (State ι × Event ι)} {r r' : DeliveryRow} {del : Delivery}

/-- A mutation of the run has queued a delivery that says this. -/
def Queued (moves : List (State ι × Event ι)) (del : Delivery) : Prop :=
  ∃ s started target, del.targetID = some target ∧
    (s, .enqueue started del.id del.tenantID del.eventType target del.payload) ∈ moves

/-- What a delivery says, without how far it is. -/
def SameEvent (del del' : Delivery) : Prop :=
  del'.id = del.id ∧ del'.tenantID = del.tenantID ∧ del'.eventType = del.eventType ∧
    del'.targetID = del.targetID ∧ del'.payload = del.payload

omit [DecidableEq ι] in
theorem Queued.mono {del' : Delivery} (h : Queued moves del) (hsame : SameEvent del del') :
    Queued (moves ++ more) del' := by
  obtain ⟨s, started, target, htarget, hmem⟩ := h
  obtain ⟨hid, htenant, htype, htarget', hpayload⟩ := hsame
  refine ⟨s, started, target, htarget'.trans htarget, List.mem_append_left _ ?_⟩
  rw [hid, htenant, htype, hpayload]
  exact hmem

theorem sameEvent_refl (del : Delivery) : SameEvent del del := ⟨rfl, rfl, rfl, rfl, rfl⟩

theorem SameEvent.trans {a b c : Delivery} (h : SameEvent a b) (h' : SameEvent b c) : SameEvent a c := by
  obtain ⟨h₁, h₂, h₃, h₄, h₅⟩ := h
  obtain ⟨g₁, g₂, g₃, g₄, g₅⟩ := h'
  exact ⟨g₁.trans h₁, g₂.trans h₂, g₃.trans h₃, g₄.trans h₄, g₅.trans h₅⟩

theorem SameChange.sameEvent (h : SameChange r r') : SameEvent (scanDelivery r) (scanDelivery r') := h

/-! ### What every run keeps -/

/-- What is queued is in the outbox or accepted, and all that is about was queued. -/
structure Conserves (moves : List (State ι × Event ι)) (t : State ι) : Prop where
  orderly : Orderly t
  kept : ∀ del, Queued moves del →
    (∃ r ∈ t.rows, SameEvent del (scanDelivery r)) ∨ ∃ i, .accepted i del.id ∈ t.log
  rows : ∀ r ∈ t.rows, Queued moves (scanDelivery r)
  inFlight : ∀ j, ∀ del ∈ (t.phase j).inFlight, Queued moves del

theorem kept_step (hs : Step ds s e t) (h : Conserves moves s) {del : Delivery}
    (hdel : Queued (moves ++ [(s, e)]) del) :
    (∃ r ∈ t.rows, SameEvent del (scanDelivery r)) ∨ ∃ i, .accepted i del.id ∈ t.log := by
  obtain ⟨s', started, target, htarget, hmem⟩ := hdel
  rcases List.mem_append.mp hmem with hold | hnew
  · rcases h.kept del ⟨s', started, target, htarget, hold⟩ with ⟨r, hr, hsame⟩ | ⟨i, hi⟩
    · -- only a purge takes a row away, and it takes those that have been accepted
      rcases step_keeps hs hr with ⟨r', hr', hid⟩ | ⟨_, _, _, hdone, _⟩
      · obtain ⟨x, hx, hrow⟩ := step_old hs h.orderly hr' (hid ▸ h.orderly.enqueued r hr)
        obtain rfl := List.inj_on_of_nodup_map h.orderly.nodup hx hr (hrow.id_eq.symm.trans hid)
        exact Or.inl ⟨r', hr', hsame.trans hrow.sameChange.sameEvent⟩
      · obtain ⟨i, hi⟩ := h.orderly.accepted r hr hdone
        exact Or.inr ⟨i, (log_grows hs).subset (hsame.1 ▸ hi)⟩
    · exact Or.inr ⟨i, (log_grows hs).subset hi⟩
  · obtain ⟨-, rfl⟩ := Prod.mk.inj (List.mem_singleton.mp hnew)
    cases hs with
    | enqueue => exact Or.inl ⟨_, List.mem_append_right _ List.mem_cons_self, rfl, rfl, rfl, htarget.symm, rfl⟩

theorem rows_step (hs : Step ds s e t) (h : Conserves moves s) (hr : r' ∈ t.rows) :
    Queued (moves ++ [(s, e)]) (scanDelivery r') := by
  rcases step_row hs h.orderly.nodup hr with
    ⟨started, id, tenantID, eventType, target, payload, rfl, rfl⟩ | ⟨r, hr, hrow⟩
  · exact ⟨s, started, target, rfl, List.mem_append_right _ (List.mem_singleton_self _)⟩
  · exact (h.rows r hr).mono hrow.sameChange.sameEvent

theorem inFlight_step (hs : Step ds s e t) (h : Conserves moves s) {j : ι}
    (hdel : del ∈ (t.phase j).inFlight) : Queued (moves ++ [(s, e)]) del := by
  rcases phase_step hs j with hcont | ⟨_, _, _, _, hret, hphase⟩
  · exact (h.inFlight j del (hcont.2.1.subset hdel)).mono (sameEvent_refl del)
  · rw [hphase, inFlight_next] at hdel
    obtain ⟨r, hr, rfl⟩ := (mem_claimed hret).mp hdel
    exact (h.rows r (List.mem_of_mem_filter hr)).mono ⟨rfl, rfl, rfl, rfl, rfl⟩

theorem trace_conserves (h : Trace ds .start moves t) : Conserves moves t := by
  induction h with
  | nil =>
    refine ⟨reach_orderly (.start : Reach ds (fun _ _ => True) .start), ?_, ?_, ?_⟩
    · rintro del ⟨_, _, _, _, hmem⟩
      cases hmem
    · intro r hr
      cases hr
    · intro j del hdel
      cases hdel
  | snoc h hs ih =>
    exact ⟨orderly_step hs ih.orderly, fun _ => kept_step hs ih, fun _ => rows_step hs ih,
      fun _ _ => inFlight_step hs ih⟩

/-- In every run, what a mutation has queued is in the outbox until the receiver has accepted it, and
what a dispatcher posts says what a mutation has queued before. -/
theorem queued_conserved (h : Trace ds .start moves t) :
    (∀ del, Queued moves del →
      (∃ r ∈ t.rows, SameEvent del (scanDelivery r)) ∨ ∃ i, .accepted i del.id ∈ t.log) ∧
    ∀ i b del todo, t.phase i = .sending b del todo → Queued moves del := by
  have hc := trace_conserves h
  refine ⟨hc.kept, fun i b del todo hphase => hc.inFlight i del ?_⟩
  rw [hphase]
  exact List.mem_cons_self

/-- A delivery is queued, claimed and about to be posted. -/
theorem queued_conserved_sending : ∃ (moves : List (State Replica × Event Replica))
    (t : State Replica) (b : Batch) (del : Delivery), t.phase .left = .sending b del [] ∧
      Queued moves del ∧ ((∃ r ∈ t.rows, SameEvent del (scanDelivery r)) ∨
        ∃ i, .accepted i del.id ∈ t.log) := by
  obtain ⟨s, t, u, b, del, hs, ht, hu, hphase⟩ : ∃ (s t u : State Replica) (b : Batch) (del : Delivery),
      next (fun _ => tries 1) .start someEnqueue = some s ∧
      next (fun _ => tries 1) s (someClaim .left 1 0) = some t ∧
      next (fun _ => tries 1) t (.start .left) = some u ∧ u.phase .left = .sending b del [] :=
    ⟨_, _, _, _, _, rfl, rfl, rfl, rfl⟩
  have hrun := Trace.snoc (.snoc (.snoc .nil (step_of_next hs)) (step_of_next ht)) (step_of_next hu)
  have hdel := (queued_conserved hrun).2 .left b del [] hphase
  exact ⟨_, u, b, del, hphase, hdel, (queued_conserved hrun).1 del hdel⟩

end Scimage.Webhook
