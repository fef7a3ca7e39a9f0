import Scimage.Webhook.Dispatcher
import Mathlib.Data.List.Perm.Basic
import Mathlib.Data.Fintype.Basic

/-! Dispatchers and operators over one outbox. -/
namespace Scimage.Webhook

open Txn Store

/-- The batch a dispatcher works on, and how its time went. -/
structure Batch where
  /-- How long the log was right after its claim. -/
  serial : Nat
  claimedAt : Time
  /-- POSTs started so far. -/
  sent : Nat
  /-- Time spent in the current POST. -/
  sending : Nat
  /-- Time spent outside its POSTs. -/
  overhead : Nat

/-- Where a dispatcher is in `drain`. A crash brings it back to `idle`. -/
inductive Phase where
  | idle
  | draining (b : Batch) (todo : List Delivery)
  | sending (b : Batch) (del : Delivery) (todo : List Delivery)
  | reporting (b : Batch) (del : Delivery) (r : Report) (todo : List Delivery)

/-- What happened to a delivery, kept for what the properties say of the past. -/
inductive Happening (ι : Type) where
  | enqueued (id : Nat)
  | claimed (i : ι) (id : Nat)
  /-- Claimed, and the dispatcher does not learn of it. -/
  | lost (i : ι) (id : Nat)
  | posted (i : ι) (id : Nat)
  | accepted (i : ι) (id : Nat)
  | replayed (id : Nat)
  deriving DecidableEq

structure State (ι : Type) where
  clock : Time
  rows : List DeliveryRow
  phase : ι → Phase
  log : List (Happening ι)

variable {ι : Type}

def State.start : State ι := ⟨0, [], fun _ => .idle, []⟩

/-- The next delivery of the batch, or the wait for the ticker. -/
def Batch.next (b : Batch) : List Delivery → Phase
  | [] => .idle
  | todo => .draining b todo

def Phase.age (δ : Nat) : Phase → Phase
  | .idle => .idle
  | .draining b todo => .draining { b with overhead := b.overhead + δ } todo
  | .sending b del todo => .sending { b with sending := b.sending + δ } del todo
  | .reporting b del r todo => .reporting { b with overhead := b.overhead + δ } del r todo

def Phase.isReporting : Phase → Bool
  | .reporting .. => true
  | _ => false

/-- The batches in flight: claimed, and the outcome not yet recorded. -/
def Phase.batch : Phase → Option Batch
  | .idle => none
  | .draining b _ | .sending b _ _ | .reporting b _ _ _ => some b

def Phase.inFlight : Phase → List Delivery
  | .idle => []
  | .draining _ todo => todo
  | .sending _ del todo | .reporting _ del _ todo => del :: todo

/-- Deliveries of the batch whose POST has not started. -/
def Phase.unsent : Phase → List Delivery
  | .idle => []
  | .draining _ todo | .sending _ _ todo | .reporting _ _ _ todo => todo

theorem Batch.next_ne_reporting {b b' : Batch} {todo todo' : List Delivery} {del : Delivery}
    {r : Report} : b.next todo ≠ .reporting b' del r todo' := by
  cases todo <;> simp [Batch.next]

theorem Phase.age_reporting {δ : Nat} {p : Phase} {b : Batch} {del : Delivery} {r : Report}
    {todo : List Delivery} (h : p.age δ = .reporting b del r todo) :
    ∃ b', p = .reporting b' del r todo := by
  cases p with
  | reporting b' del' r' todo' =>
    simp only [Phase.age, Phase.reporting.injEq] at h
    obtain ⟨-, rfl, rfl, rfl⟩ := h
    exact ⟨b', rfl⟩
  | _ => cases h

inductive Event (ι : Type) where
  | tick (δ : Nat)
  | enqueue (started : Time) (id : Nat) (tenantID : String) (eventType : EventType)
      (target : Uuid) (payload : Payload)
  | claim (i : ι) (locked : Nat → Bool) (returned : List Delivery)
  | claimLost (i : ι) (locked : Nat → Bool)
  | start (i : ι)
  | refuse (i : ι) (cause : String)
  | answer (i : ι) (r : Response) (now : Time) (jitter : Duration)
  | report (i : ι)
  | reportLost (i : ι)
  | quit (i : ι)
  | replay (started : Time) (id : Nat)
  | purge (i : ι) (now : Time)

variable [DecidableEq ι]

namespace State

def setPhase (s : State ι) (i : ι) (p : Phase) : State ι :=
  { s with phase := Function.update s.phase i p }

def withRows (s : State ι) (rows : List DeliveryRow) : State ι := { s with rows }

def note (s : State ι) (hs : List (Happening ι)) : State ι := { s with log := s.log ++ hs }

theorem setPhase_phase (s : State ι) (i j : ι) (p : Phase) :
    (s.setPhase i p).phase j = if j = i then p else s.phase j :=
  Function.update_apply s.phase i p j

theorem setPhase_clock (s : State ι) (i : ι) (p : Phase) : (s.setPhase i p).clock = s.clock := rfl

end State

/-- Rows that a claim of the dispatcher `d` takes in `s`. -/
def taken (d : Dispatcher) (s : State ι) (locked : Nat → Bool) : List DeliveryRow :=
  s.rows.filter (claims d.batch s.clock locked s.rows)

/-- A claim has happened in the database; `h` is its happening. -/
def State.claimed (s : State ι) (d : Dispatcher) (locked : Nat → Bool) (h : Nat → Happening ι) :
    State ι :=
  (s.withRows (claimDueDeliveries d.batch d.leaseFor s.clock locked s.rows)).note
    ((taken d s locked).map fun r => h r.id)

/-- The steps of dispatchers with the settings `ds`, of operators and of mutations. Each
statement is one step; a claim passes rows that another transaction has `locked`. -/
inductive Step (ds : ι → Dispatcher) (s : State ι) : Event ι → State ι → Prop where
  | tick (δ : Nat) :
    Step ds s (.tick δ) { s with clock := s.clock + δ, phase := fun i => (s.phase i).age δ }
  /-- A mutation that started at `started` commits its delivery. -/
  | enqueue (started : Time) {id : Nat} (hid : .enqueued id ∉ s.log) (tenantID : String)
      (eventType : EventType) (target : Uuid) (payload : Payload) :
    Step ds s (.enqueue started id tenantID eventType target payload)
      ((s.withRows (s.rows ++ [newDelivery started id tenantID eventType target payload])).note
        [.enqueued id])
  | claim {i : ι} (hi : s.phase i = .idle) (locked : Nat → Bool) {returned : List Delivery}
      (hr : returned.Perm
        (claimedDeliveries (ds i).batch (ds i).leaseFor s.clock locked s.rows)) :
    Step ds s (.claim i locked returned)
      ((s.claimed (ds i) locked (.claimed i)).setPhase i
        (Batch.next ⟨(s.claimed (ds i) locked (.claimed i)).log.length, s.clock, 0, 0, 0⟩ returned))
  /-- The claim is committed, and its answer does not reach the dispatcher. -/
  | claimLost {i : ι} (hi : s.phase i = .idle) (locked : Nat → Bool) :
    Step ds s (.claimLost i locked) (s.claimed (ds i) locked (.lost i))
  | start {i : ι} {b : Batch} {del : Delivery} {todo : List Delivery}
      (hi : s.phase i = .draining b (del :: todo)) :
    Step ds s (.start i)
      ((s.setPhase i (.sending { b with sent := b.sent + 1, sending := 0 } del todo)).note
        [.posted i del.id])
  /-- The request cannot be built. -/
  | refuse {i : ι} {b : Batch} {del : Delivery} {todo : List Delivery} (cause : String)
      (hi : s.phase i = .draining b (del :: todo)) :
    Step ds s (.refuse i cause) (s.setPhase i (.reporting b del (.deadLetter cause) todo))
  | answer {i : ι} {b : Batch} {del : Delivery} {todo : List Delivery} (r : Response)
      (now : Time) {jitter : Duration} (hi : s.phase i = .sending b del todo)
      (hjitter : 0 ≤ jitter ∧ jitter < (ds i).wait del.attempts / 5 + 1) :
    Step ds s (.answer i r now jitter)
      ((s.setPhase i (.reporting b del (attempt (ds i) del now jitter (send r)) todo)).note
        (if r.accepted then [.accepted i del.id] else []))
  | report {i : ι} {b : Batch} {del : Delivery} {r : Report} {todo : List Delivery}
      (hi : s.phase i = .reporting b del r todo) :
    Step ds s (.report i) ((s.withRows (r.write s.clock del.id s.rows)).setPhase i (b.next todo))
  /-- The outcome is not recorded. -/
  | reportLost {i : ι} {b : Batch} {del : Delivery} {r : Report} {todo : List Delivery}
      (hi : s.phase i = .reporting b del r todo) :
    Step ds s (.reportLost i) (s.setPhase i (b.next todo))
  /-- The dispatcher crashes, or its context is cancelled. -/
  | quit (i : ι) : Step ds s (.quit i) (s.setPhase i .idle)
  | replay (started : Time) {id : Nat} {r : DeliveryRow} (hr : r ∈ s.rows) (hid : r.id = id)
      (hdead : r.status = .deadLetter) :
    Step ds s (.replay started id) ((s.withRows (replayed started id s.rows)).note [.replayed id])
  | purge {i : ι} (hi : s.phase i = .idle) (hret : 0 < (ds i).retention) (now : Time) :
    Step ds s (.purge i now) (s.withRows (purgeDeliveredBefore (now - (ds i).retention) s.rows))

/-- The states of runs whose steps all meet the condition `G`. -/
inductive Reach (ds : ι → Dispatcher) (G : State ι → Event ι → Prop) : State ι → Prop where
  | start : Reach ds G .start
  | step {s t : State ι} {e : Event ι} (h : Reach ds G s) (hg : G s e) (hs : Step ds s e t) :
    Reach ds G t

/-! ### Steps that can be computed -/

/-- The state after an event, where the event can happen. -/
def next (ds : ι → Dispatcher) (s : State ι) : Event ι → Option (State ι)
  | .tick δ => some { s with clock := s.clock + δ, phase := fun i => (s.phase i).age δ }
  | .enqueue started id tenantID eventType target payload =>
    if .enqueued id ∈ s.log then none
    else
      some ((s.withRows (s.rows ++ [newDelivery started id tenantID eventType target payload])).note
        [.enqueued id])
  | .claim i locked returned =>
    match s.phase i with
    | .idle =>
      if returned.Perm (claimedDeliveries (ds i).batch (ds i).leaseFor s.clock locked s.rows) then
        some ((s.claimed (ds i) locked (.claimed i)).setPhase i
          (Batch.next ⟨(s.claimed (ds i) locked (.claimed i)).log.length, s.clock, 0, 0, 0⟩
            returned))
      else none
    | _ => none
  | .claimLost i locked =>
    match s.phase i with
    | .idle => some (s.claimed (ds i) locked (.lost i))
    | _ => none
  | .start i =>
    match s.phase i with
    | .draining b (del :: todo) =>
      some ((s.setPhase i (.sending { b with sent := b.sent + 1, sending := 0 } del todo)).note
        [.posted i del.id])
    | _ => none
  | .refuse i cause =>
    match s.phase i with
    | .draining b (del :: todo) => some (s.setPhase i (.reporting b del (.deadLetter cause) todo))
    | _ => none
  | .answer i r now jitter =>
    match s.phase i with
    | .sending b del todo =>
      if 0 ≤ jitter ∧ jitter < (ds i).wait del.attempts / 5 + 1 then
        some ((s.setPhase i (.reporting b del (attempt (ds i) del now jitter (send r)) todo)).note
          (if r.accepted then [.accepted i del.id] else []))
      else none
    | _ => none
  | .report i =>
    match s.phase i with
    | .reporting b del r todo =>
      some ((s.withRows (r.write s.clock del.id s.rows)).setPhase i (b.next todo))
    | _ => none
  | .reportLost i =>
    match s.phase i with
    | .reporting b _ _ todo => some (s.setPhase i (b.next todo))
    | _ => none
  | .quit i => some (s.setPhase i .idle)
  | .replay started id =>
    if ∃ r ∈ s.rows, r.id = id ∧ r.status = .deadLetter then
      some ((s.withRows (replayed started id s.rows)).note [.replayed id])
    else none
  | .purge i now =>
    match s.phase i with
    | .idle =>
      if 0 < (ds i).retention then
        some (s.withRows (purgeDeliveredBefore (now - (ds i).retention) s.rows))
      else none
    | _ => none

theorem step_of_next {ds : ι → Dispatcher} {s t : State ι} {e : Event ι}
    (h : next ds s e = some t) : Step ds s e t := by
  cases e with
  | tick δ =>
    obtain rfl := Option.some.inj h
    exact .tick δ
  | enqueue started id tenantID eventType target payload =>
    obtain ⟨hid, ⟨⟩⟩ := Option.ite_none_left_eq_some.mp h
    exact .enqueue started hid tenantID eventType target payload
  | claim i locked returned =>
    simp only [next] at h
    split at h
    · rename_i hi
      obtain ⟨hr, ⟨⟩⟩ := Option.ite_none_right_eq_some.mp h
      exact .claim hi locked hr
    · cases h
  | claimLost i locked =>
    simp only [next] at h
    split at h
    · rename_i hi
      obtain rfl := Option.some.inj h
      exact .claimLost hi locked
    · cases h
  | start i =>
    simp only [next] at h
    split at h
    · rename_i hi
      obtain rfl := Option.some.inj h
      exact .start hi
    · cases h
  | refuse i cause =>
    simp only [next] at h
    split at h
    · rename_i hi
      obtain rfl := Option.some.inj h
      exact .refuse cause hi
    · cases h
  | answer i r now jitter =>
    simp only [next] at h
    split at h
    · rename_i hi
      obtain ⟨hjitter, ⟨⟩⟩ := Option.ite_none_right_eq_some.mp h
      exact .answer r now hi hjitter
    · cases h
  | report i =>
    simp only [next] at h
    split at h
    · rename_i hi
      obtain rfl := Option.some.inj h
      exact .report hi
    · cases h
  | reportLost i =>
    simp only [next] at h
    split at h
    · rename_i hi
      obtain rfl := Option.some.inj h
      exact .reportLost hi
    · cases h
  | quit i =>
    obtain rfl := Option.some.inj h
    exact .quit i
  | replay started id =>
    obtain ⟨⟨r, hr, hid, hdead⟩, ⟨⟩⟩ := Option.ite_none_right_eq_some.mp h
    exact .replay started hr hid hdead
  | purge i now =>
    simp only [next] at h
    split at h
    · rename_i hi
      obtain ⟨hret, ⟨⟩⟩ := Option.ite_none_right_eq_some.mp h
      exact .purge hi hret now
    · cases h

variable (ds : ι → Dispatcher) (G : State ι → Event ι → Prop) [∀ s e, Decidable (G s e)]

/-- The state after events that all meet `G`. -/
def exec : State ι → List (Event ι) → Option (State ι)
  | s, [] => some s
  | s, e :: es => if G s e then (next ds s e).bind fun t => exec t es else none

theorem reach_exec {ds : ι → Dispatcher} {G : State ι → Event ι → Prop}
    [∀ s e, Decidable (G s e)] {s t : State ι} {es : List (Event ι)} (h : Reach ds G s)
    (ht : exec ds G s es = some t) : Reach ds G t := by
  induction es generalizing s with
  | nil =>
    obtain rfl := Option.some.inj ht
    exact h
  | cons e es ih =>
    obtain ⟨hg, hes⟩ := Option.ite_none_right_eq_some.mp ht
    obtain ⟨u, hu, hrest⟩ := Option.bind_eq_some_iff.mp hes
    exact ih (.step h hg (step_of_next hu)) hrest

/-! ### Values for runs on fixed inputs -/

inductive Replica where
  | left
  | right
  deriving DecidableEq

instance : Fintype Replica := ⟨{.left, .right}, fun i => by cases i <;> simp⟩

/-- A dispatcher that tries `n` times, with the default settings otherwise. -/
def tries (n : Int) : Dispatcher := .new ⟨n, 0, 0, 0, 0, 0, 0, 0⟩

def somePayload : Payload := .group ⟨.groupDeleted, 0, someUuid.text, none, none⟩

def someEnqueue : Event Replica := .enqueue 0 1 "acme" .groupDeleted someUuid somePayload

/-- The queued delivery, claimed for the `attempts`-th time at `now`. -/
def someClaim (i : Replica) (attempts : Nat) (now : Time) : Event Replica :=
  .claim i (fun _ => false) [⟨1, "acme", .groupDeleted, some someUuid, somePayload, attempts,
    now + (tries 1).leaseFor⟩]

end Scimage.Webhook
