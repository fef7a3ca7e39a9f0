import Scimage.Store.Statement
import Scimage.Store.Text
import Mathlib.Data.List.Nodup

/-! The statements on `webhook_deliveries` that drain the outbox. -/
namespace Scimage.Store

open Txn

abbrev Duration := Int

/-- A delivery as the dispatcher sees it; `attempts` counts the claim that took it. -/
structure Delivery where
  id : Nat
  tenantID : String
  eventType : EventType
  targetID : Option Uuid
  payload : Payload
  attempts : Nat
  nextAttemptAt : Time
  deriving DecidableEq

def scanDelivery (r : DeliveryRow) : Delivery :=
  ⟨r.id, r.tenantID, r.eventType, r.targetID, r.payload, r.attempts, r.nextAttemptAt⟩

def DeliveryRow.due (now : Time) (r : DeliveryRow) : Bool :=
  r.status = .pending ∧ r.nextAttemptAt ≤ now

def DeliveryRow.dueBefore (a b : DeliveryRow) : Bool :=
  a.nextAttemptAt < b.nextAttemptAt || (a.nextAttemptAt == b.nextAttemptAt && a.id ≤ b.id)

/-- The due rows that `ClaimDueDeliveries` selects, past those that are `locked`. -/
def dueDeliveries (limit : Int) (now : Time) (locked : Nat → Bool) (rows : List DeliveryRow) :
    List DeliveryRow :=
  ((rows.filter fun r => r.due now && !locked r.id).insertionSort fun a b => a.dueBefore b).take
    limit.toNat

def lease (now : Time) (d : Duration) (r : DeliveryRow) : DeliveryRow :=
  { r with attempts := r.attempts + 1, nextAttemptAt := now + d }

/-- `UPDATE ... WHERE` on the rows for which `p` holds. -/
def updateWhere (p : DeliveryRow → Bool) (set : DeliveryRow → DeliveryRow)
    (rows : List DeliveryRow) : List DeliveryRow :=
  rows.map fun r => if p r then set r else r

/-- Whether a claim takes a row. -/
def claims (limit : Int) (now : Time) (locked : Nat → Bool) (rows : List DeliveryRow)
    (r : DeliveryRow) : Bool :=
  r.id ∈ (dueDeliveries limit now locked rows).map DeliveryRow.id

def claimDueDeliveries (limit : Int) (d : Duration) (now : Time) (locked : Nat → Bool)
    (rows : List DeliveryRow) : List DeliveryRow :=
  updateWhere (claims limit now locked rows) (lease now d) rows

/-- What `RETURNING` gives, up to its order. -/
def claimedDeliveries (limit : Int) (d : Duration) (now : Time) (locked : Nat → Bool)
    (rows : List DeliveryRow) : List Delivery :=
  (rows.filter (claims limit now locked rows)).map fun r => scanDelivery (lease now d r)

/-- `WHERE id = $1 AND status = 'pending'`. -/
def DeliveryRow.stillPending (id : Nat) (r : DeliveryRow) : Bool := r.id = id ∧ r.status = .pending

def delivered (now : Time) (r : DeliveryRow) : DeliveryRow :=
  { r with status := .delivered, deliveredAt := some now, lastError := none }

def markDelivered (now : Time) (id : Nat) : List DeliveryRow → List DeliveryRow :=
  updateWhere (DeliveryRow.stillPending id) (delivered now)

def rescheduled (cause : String) (at' : Time) (r : DeliveryRow) : DeliveryRow :=
  { r with nextAttemptAt := at', lastError := some (truncateCause cause) }

def rescheduleDelivery (id : Nat) (cause : String) (at' : Time) :
    List DeliveryRow → List DeliveryRow :=
  updateWhere (DeliveryRow.stillPending id) (rescheduled cause at')

def parked (cause : String) (r : DeliveryRow) : DeliveryRow :=
  { r with status := .deadLetter, lastError := some (truncateCause cause) }

def deadLetterDelivery (id : Nat) (cause : String) : List DeliveryRow → List DeliveryRow :=
  updateWhere (DeliveryRow.stillPending id) (parked cause)

/-- What a committed `ReplayDeadLetter` leaves; `now` is when its transaction started. -/
def replayed (now : Time) (id : Nat) : List DeliveryRow → List DeliveryRow :=
  updateWhere (fun r => r.id = id ∧ r.status = .deadLetter) (requeue now)

def purgeable (cutoff : Time) (r : DeliveryRow) : Bool :=
  r.status = .delivered ∧ ∃ t ∈ r.deliveredAt, t < cutoff

def purgeDeliveredBefore (cutoff : Time) (rows : List DeliveryRow) : List DeliveryRow :=
  rows.filter fun r => !purgeable cutoff r

/-- `ORDER BY created_at DESC, id DESC`. -/
def DeliveryRow.newerFirst (a b : DeliveryRow) : Bool :=
  b.createdAt < a.createdAt || (a.createdAt == b.createdAt && b.id ≤ a.id)

/-- The parked deliveries, up to a limit. -/
def deadLetters (limit : Int) (rows : List DeliveryRow) : List Delivery :=
  let limit : Int := if limit ≤ 0 ∨ maxPageSize < limit then maxPageSize else limit
  (((rows.filter fun r => r.status = .deadLetter).insertionSort fun a b => a.newerFirst b).take
    limit.toNat).map scanDelivery

/-- The waiting deliveries in the order of a claim, up to a limit. -/
def pendingDeliveries (limit : Int) (rows : List DeliveryRow) : List Delivery :=
  let limit : Int := if limit ≤ 0 ∨ maxPageSize < limit then maxPageSize else limit
  (((rows.filter fun r => r.status = .pending).insertionSort fun a b => a.dueBefore b).take
    limit.toNat).map scanDelivery

/-! ### What the statements leave of a row -/

section Rows

variable {p : DeliveryRow → Bool} {set : DeliveryRow → DeliveryRow} {rows : List DeliveryRow}
  {r r' : DeliveryRow} {now : Time}

@[simp] theorem lease_id (d : Duration) : (lease now d r).id = r.id := rfl

@[simp] theorem requeue_id : (requeue now r).id = r.id := rfl

theorem mem_updateWhere : r' ∈ updateWhere p set rows ↔
    ∃ r ∈ rows, (if p r then set r else r) = r' := by
  simp [updateWhere]

theorem map_id_updateWhere (h : ∀ r, (set r).id = r.id) :
    (updateWhere p set rows).map DeliveryRow.id = rows.map DeliveryRow.id := by
  rw [updateWhere, List.map_map]
  refine List.map_congr_left fun r _ => ?_
  by_cases hp : p r <;> simp [hp, h]

variable {limit : Int} {locked : Nat → Bool}

theorem deadLetters_of_mem {d : Delivery} (h : d ∈ deadLetters limit rows) :
    ∃ r ∈ rows, r.id = d.id ∧ r.status = .deadLetter := by
  obtain ⟨r, hr, rfl⟩ := List.mem_map.mp h
  have hsorted := (List.mem_insertionSort _).mp (List.mem_of_mem_take hr)
  obtain ⟨hrow, hdead⟩ := List.mem_filter.mp hsorted
  exact ⟨r, hrow, rfl, of_decide_eq_true hdead⟩

theorem deadLetters_nodup (hn : (rows.map DeliveryRow.id).Nodup) :
    ((deadLetters limit rows).map Delivery.id).Nodup := by
  simp only [deadLetters, List.map_map]
  refine List.Nodup.sublist ((List.take_sublist _ _).map _) ?_
  refine ((List.perm_insertionSort _ _).map _).nodup_iff.mpr ?_
  exact hn.sublist (List.filter_sublist.map DeliveryRow.id)

/-- The page is empty only where nothing is parked. -/
theorem deadLetters_eq_nil (h : deadLetters limit rows = []) :
    ∀ r ∈ rows, r.status ≠ .deadLetter := by
  intro r hr hdead
  have hmem : r ∈ (rows.filter fun r => r.status = .deadLetter).insertionSort
      fun a b => a.newerFirst b :=
    (List.mem_insertionSort _).mpr (List.mem_filter.mpr ⟨hr, decide_eq_true hdead⟩)
  have hlimit : 0 < (if limit ≤ 0 ∨ maxPageSize < limit then (maxPageSize : Int) else limit).toNat := by
    by_cases hout : limit ≤ 0 ∨ (maxPageSize : Int) < limit
    · rw [if_pos hout, maxPageSize]
      omega
    · rw [if_neg hout]
      omega
  simp only [deadLetters, List.map_eq_nil_iff, List.take_eq_nil_iff] at h
  rcases h with h | h
  · omega
  · rw [h] at hmem
    cases hmem

/-- A claim takes due rows only. -/
theorem claims_due (hn : (rows.map DeliveryRow.id).Nodup) (hr : r ∈ rows)
    (h : claims limit now locked rows r = true) : r.due now = true := by
  simp only [claims, decide_eq_true_eq, List.mem_map] at h
  obtain ⟨x, hx, hid⟩ := h
  have hmem := (List.mem_insertionSort _).mp (List.mem_of_mem_take hx)
  obtain ⟨hxr, hdue⟩ := List.mem_filter.mp hmem
  obtain rfl := List.inj_on_of_nodup_map hn hxr hr hid
  simp only [Bool.and_eq_true] at hdue
  exact hdue.1

theorem claims_congr {x : DeliveryRow} (h : x.id = r.id) :
    claims limit now locked rows x = claims limit now locked rows r := by
  rw [claims, claims, h]

end Rows

end Scimage.Store
