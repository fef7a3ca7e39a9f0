import Scimage.Scim.Announced
import Scimage.Webhook.Conserved

/-! The server and the dispatchers on one outbox: from a change to its receiver. -/
namespace Scimage.Webhook

open Txn Store
open Scim (AnnouncedBy Chain Server Work serverProgs)

variable {ι κ : Type} [DecidableEq ι] [DecidableEq κ] [Fintype κ] {ds : ι → Dispatcher}
  {t : State ι} {moves : List (State ι × Event ι)} {a : AuditRow} {d r : DeliveryRow} {del : Delivery}

/-! ### What the server queues -/

/-- What a delivery says. -/
def said (d : DeliveryRow) : Nat × String × EventType × Option Uuid × Payload :=
  (d.id, d.tenantID, d.eventType, d.targetID, d.payload)

def Event.queues : Event ι → Option (Nat × String × EventType × Option Uuid × Payload)
  | .enqueue _ id tenantID eventType target payload => some (id, tenantID, eventType, some target, payload)
  | _ => none

/-- What the mutations of a run have queued, in their order. -/
def enqueues (moves : List (State ι × Event ι)) :
    List (Nat × String × EventType × Option Uuid × Payload) :=
  moves.filterMap fun move => move.2.queues

omit [DecidableEq ι] in
theorem queued_of_mem (h : said d ∈ enqueues moves) : Queued moves (scanDelivery d) := by
  obtain ⟨⟨s, e⟩, hmem, hqueues⟩ := List.mem_filterMap.mp h
  cases e with
  | enqueue started id tenantID eventType target payload =>
    simp only [Event.queues, said, Option.some.injEq, Prod.mk.injEq] at hqueues
    obtain ⟨rfl, rfl, rfl, htarget, rfl⟩ := hqueues
    exact ⟨s, started, target, htarget.symm, hmem⟩
  | _ => cases hqueues

omit [DecidableEq ι] in
theorem mem_of_queued (h : Queued moves del) :
    (del.id, del.tenantID, del.eventType, del.targetID, del.payload) ∈ enqueues moves := by
  obtain ⟨s, started, target, htarget, hmem⟩ := h
  refine List.mem_filterMap.mpr ⟨_, hmem, ?_⟩
  rw [Event.queues, htarget]

theorem announcedBy_same (h : AnnouncedBy a d) (hsame : SameEvent (scanDelivery d) (scanDelivery r)) :
    AnnouncedBy a r := by
  obtain ⟨-, htenant, htype, htarget, hpayload⟩ := hsame
  simp only [scanDelivery] at htenant htype htarget hpayload
  have hpoints : r.target = d.target := by rw [DeliveryRow.target, DeliveryRow.target, htype, htarget]
  constructor
  · rw [hpoints]
    exact h.target
  · rw [htenant]
    exact h.tenant
  · rw [hpayload]
    exact h.before
  · rw [hpayload]
    exact h.after
  · rw [htype]
    exact h.deleted
  · rw [htype]
    exact h.deactivated

theorem forall₂_getElem? {α β : Type} {R : α → β → Prop} {l : List α} {m : List β}
    (h : List.Forall₂ R l m) (n : Nat) {x : α} (hx : l[n]? = some x) :
    ∃ y, m[n]? = some y ∧ R x y := by
  induction h generalizing n with
  | nil => cases hx
  | cons hxy _ ih =>
    cases n with
    | zero =>
      obtain rfl := Option.some.inj hx
      exact ⟨_, rfl, hxy⟩
    | succ n => exact ih n hx

/-! ### Both at once -/

/-- A run of a deployment, seen from the server and seen from the outbox: the mutations of the one queue
what the other is given. What dispatchers and operators then do to the rows is in the second. -/
structure Deployed (pg : Postgres) (chain : Chain) (sha256 : String → List UInt8) (works : κ → Work)
    (ds : ι → Dispatcher) (st : Server κ) (moves : List (State ι × Event ι)) (t : State ι) : Prop where
  served : (engine pg).Reach .empty (serverProgs chain sha256 works) (fun _ _ => True) st
  drained : Trace ds .start moves t
  fed : enqueues moves = (st.db pg).deliveries.map said

variable {pg : Postgres} {chain : Chain} {sha256 : String → List UInt8} {works : κ → Work}
  {st : Server κ}

/-- Whatever deliveries have been queued, some run of the dispatchers has been given them. -/
theorem exists_fed (ds : ι → Dispatcher) (rows : List DeliveryRow) (hn : (rows.map DeliveryRow.id).Nodup)
    (htargets : ∀ d ∈ rows, d.targetID ≠ none) :
    ∃ moves t, Trace ds .start moves t ∧ enqueues moves = rows.map said ∧
      ∀ id, .enqueued id ∈ t.log → id ∈ rows.map DeliveryRow.id := by
  induction rows using List.reverseRecOn with
  | nil => exact ⟨[], .start, .nil, rfl, fun _ h => (List.not_mem_nil h).elim⟩
  | append_singleton rows d ih =>
    rw [List.map_append, List.nodup_append] at hn
    obtain ⟨moves, t, htrace, hfed, hlog⟩ := ih hn.1 fun x hx => htargets x (List.mem_append_left _ hx)
    obtain ⟨target, htarget⟩ := Option.ne_none_iff_exists'.mp
      (htargets d (List.mem_append_right _ List.mem_cons_self))
    have hfresh : .enqueued d.id ∉ t.log := fun h => hn.2.2 _ (hlog _ h) _ List.mem_cons_self rfl
    refine ⟨_, _, .snoc htrace (.enqueue d.createdAt hfresh d.tenantID d.eventType target d.payload), ?_, ?_⟩
    · rw [enqueues, List.filterMap_append, ← enqueues, hfed, List.map_append]
      simp [Event.queues, said, htarget]
    · intro id hid
      rcases List.mem_append.mp hid with hid | hid
      · rw [List.map_append]
        exact List.mem_append_left _ (hlog id hid)
      · cases List.mem_singleton.mp hid
        simp

/-- With change events on, in every run of a deployment, each successful change that the audit trail
records has a delivery that announces it, still in the outbox or accepted by the receiver; and whatever
is being posted announces one of these changes. -/
theorem changes_reach_receiver (hevents : chain.handler.store.changeEvents = true)
    (h : Deployed pg chain sha256 works ds st moves t) :
    (∀ (n : Nat) a, (st.db pg).successes[n]? = some a → ∃ d, (st.db pg).deliveries[n]? = some d ∧
      AnnouncedBy a d ∧ ((∃ r ∈ t.rows, r.id = d.id ∧ AnnouncedBy a r) ∨ ∃ i, .accepted i d.id ∈ t.log)) ∧
    ∀ i b del todo, t.phase i = .sending b del todo →
      ∃ a ∈ (st.db pg).successes, ∃ d ∈ (st.db pg).deliveries, AnnouncedBy a d ∧
        SameEvent (scanDelivery d) del := by
  have hannounced := Scim.history_announced (Scim.reach_announcing hevents h.served)
  have hc := trace_conserves h.drained
  constructor
  · intro n a ha
    obtain ⟨d, hd, had⟩ := forall₂_getElem? hannounced n ha
    have hqueued : Queued moves (scanDelivery d) := by
      refine queued_of_mem ?_
      rw [h.fed]
      exact List.mem_map_of_mem (List.mem_of_getElem? hd)
    refine ⟨d, hd, had, (hc.kept _ hqueued).imp ?_ id⟩
    rintro ⟨r, hr, hsame⟩
    exact ⟨r, hr, hsame.1, announcedBy_same had hsame⟩
  · intro i b del todo hphase
    have hdel : del ∈ (t.phase i).inFlight := by
      rw [hphase]
      exact List.mem_cons_self
    have hmem := mem_of_queued (hc.inFlight i del hdel)
    rw [h.fed] at hmem
    obtain ⟨d, hd, hsaid⟩ := List.mem_map.mp hmem
    obtain ⟨n, hn⟩ := List.mem_iff_getElem?.mp hd
    obtain ⟨a, ha, had⟩ := forall₂_getElem? hannounced.flip n hn
    simp only [said, Prod.mk.injEq] at hsaid
    obtain ⟨hid, htenant, htype, htarget, hpayload⟩ := hsaid
    exact ⟨a, List.mem_of_getElem? ha, d, hd, had, hid.symm, htenant.symm, htype.symm, htarget.symm,
      hpayload.symm⟩

/-- A user is created, and its delivery is in an outbox. -/
theorem changes_reach_receiver_ann : ∃ (st : Server Client) (moves : List (State Replica × Event Replica))
    (t : State Replica) (a : AuditRow),
    Deployed plainText Scim.announcingChain bytes Scim.staffWorks (fun _ => tries 1) st moves t ∧
      (st.db plainText).successes[0]? = some a ∧
      ∃ d, (st.db plainText).deliveries[0]? = some d ∧ AnnouncedBy a d ∧
        ((∃ r ∈ t.rows, r.id = d.id ∧ AnnouncedBy a r) ∨ ∃ i, .accepted i d.id ∈ t.log) := by
  obtain ⟨st, hst, hfacts⟩ := Scim.announcing_user
  have hserved := Engine.reach_steps .start hst
  obtain ⟨htargets, hsuccesses⟩ := Prod.mk.inj hfacts
  obtain ⟨d, hd, htarget⟩ := List.map_eq_singleton_iff.mp htargets
  obtain ⟨a, ha⟩ := List.length_eq_one_iff.mp hsuccesses
  obtain ⟨moves, t, htrace, hfed, -⟩ := exists_fed (fun _ : Replica => tries 1)
    (st.db plainText).deliveries (by rw [hd]; exact List.nodup_singleton _) (by
      rw [hd]
      rintro x hx hnone
      rw [List.mem_singleton.mp hx] at hnone
      rw [hnone] at htarget
      cases htarget)
  have hdeployed : Deployed plainText Scim.announcingChain bytes Scim.staffWorks (fun _ => tries 1)
      st moves t := ⟨hserved, htrace, hfed⟩
  have hfirst : (st.db plainText).successes[0]? = some a := by
    rw [ha]
    rfl
  exact ⟨st, moves, t, a, hdeployed, hfirst, (changes_reach_receiver rfl hdeployed).1 0 a hfirst⟩

end Scimage.Webhook
