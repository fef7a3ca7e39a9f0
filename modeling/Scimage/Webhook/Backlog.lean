import Scimage.Webhook.Overtaking

/-! What the console's pages show of the outbox while it is drained. -/
namespace Scimage.Webhook

open Txn Store

variable {ι : Type} [DecidableEq ι] {ds : ι → Dispatcher} {t : State ι}
  {moves : List (State ι × Event ι)} {rows : List DeliveryRow} {limit : Int} {now : Time}
  {locked : Nat → Bool} {del : Delivery}

/-- How many deliveries a page takes. -/
def pageSize (limit : Int) : Nat := if limit ≤ 0 ∨ maxPageSize < limit then maxPageSize else limit.toNat

theorem pageSize_eq (limit : Int) :
    (if limit ≤ 0 ∨ maxPageSize < limit then (maxPageSize : Int) else limit).toNat = pageSize limit := by
  unfold pageSize
  split <;> rfl

theorem mem_take_or_full {α : Type} {l : List α} {x : α} (h : x ∈ l) (n : Nat) :
    x ∈ l.take n ∨ (l.take n).length = n := by
  rcases Nat.le_total l.length n with hle | hge
  · rw [List.take_of_length_le hle]
    exact Or.inl h
  · exact Or.inr (by rw [List.length_take]; omega)

/-! ### The order of the page -/

/-- All that wait, in the order of a claim. -/
def backlog (rows : List DeliveryRow) : List DeliveryRow :=
  (rows.filter fun r => r.status = .pending).insertionSort fun a b => a.dueBefore b

theorem mem_backlog {r : DeliveryRow} : r ∈ backlog rows ↔ r ∈ rows ∧ r.status = .pending := by
  rw [backlog, List.mem_insertionSort, List.mem_filter, decide_eq_true_eq]

theorem pendingDeliveries_eq (limit : Int) (rows : List DeliveryRow) :
    pendingDeliveries limit rows = ((backlog rows).take (pageSize limit)).map scanDelivery := by
  rw [← pageSize_eq]
  rfl

/-- Rows that come before each other are one row, as their ids are apart. -/
theorem eq_of_dueBefore (hn : (rows.map DeliveryRow.id).Nodup) {a b : DeliveryRow} (ha : a ∈ rows)
    (hb : b ∈ rows) (hab : a.dueBefore b = true) (hba : b.dueBefore a = true) : a = b := by
  rw [dueBefore_iff] at hab hba
  refine List.inj_on_of_nodup_map hn ha hb ?_
  rcases hab with hab | ⟨heq, hab⟩
  · rcases hba with hba | ⟨heq, -⟩
    · exact (lt_asymm hab hba).elim
    · exact (hab.ne heq.symm).elim
  · rcases hba with hba | ⟨-, hba⟩
    · exact (hba.ne heq.symm).elim
    · exact Nat.le_antisymm hab hba

/-- A claim chooses among what waits, in the order of the page. -/
theorem dueDeliveries_backlog (hn : (rows.map DeliveryRow.id).Nodup) :
    dueDeliveries limit now locked rows =
      ((backlog rows).filter fun r => r.nextAttemptAt ≤ now && !locked r.id).take limit.toNat := by
  have hsorted : (backlog rows).Pairwise fun a b => a.dueBefore b = true :=
    List.pairwise_insertionSort (fun a b : DeliveryRow => a.dueBefore b = true) _
  have hperm : ((rows.filter fun r => r.due now && !locked r.id).insertionSort
      fun a b => a.dueBefore b).Perm
      ((backlog rows).filter fun r => r.nextAttemptAt ≤ now && !locked r.id) := by
    refine (List.perm_insertionSort _ _).trans (List.Perm.trans ?_
      ((List.perm_insertionSort _ (rows.filter fun r => r.status = .pending)).symm.filter _))
    rw [List.filter_filter]
    refine List.Perm.of_eq (List.filter_congr fun r _ => ?_)
    simp only [DeliveryRow.due]
    by_cases hp : r.status = .pending <;> by_cases hd : r.nextAttemptAt ≤ now <;> simp [hp, hd]
  rw [dueDeliveries]
  congr 1
  refine hperm.eq_of_pairwise ?_
    (List.pairwise_insertionSort (fun a b : DeliveryRow => a.dueBefore b = true) _)
    (hsorted.sublist List.filter_sublist)
  intro a b ha hb hab hba
  have hina := (mem_backlog.mp (List.mem_of_mem_filter (hperm.mem_iff.mp ha))).1
  have hinb := (mem_backlog.mp (List.mem_of_mem_filter hb)).1
  exact eq_of_dueBefore hn hina hinb hab hba

/-- The due deliveries of the page that nobody holds are what a claim takes first. -/
theorem page_heads_claim (hn : (rows.map DeliveryRow.id).Nodup) (pageLimit limit : Int) (now : Time)
    (locked : Nat → Bool) :
    ((pendingDeliveries pageLimit rows).filter fun d => d.nextAttemptAt ≤ now && !locked d.id).take
        limit.toNat <+: (dueDeliveries limit now locked rows).map scanDelivery := by
  rw [dueDeliveries_backlog hn, pendingDeliveries_eq, List.filter_map, ← List.map_take]
  refine List.IsPrefix.map _ ?_
  have hpre : ((backlog rows).take (pageSize pageLimit)).filter
      (fun r => r.nextAttemptAt ≤ now && !locked r.id) <+:
      (backlog rows).filter fun r => r.nextAttemptAt ≤ now && !locked r.id :=
    (List.take_prefix _ _).filter _
  exact hpre.take _

/-! ### What is on the pages -/

theorem pendingDeliveries_shows {r : DeliveryRow} (hr : r ∈ rows) (hp : r.status = .pending)
    (limit : Int) : scanDelivery r ∈ pendingDeliveries limit rows ∨
      (pendingDeliveries limit rows).length = pageSize limit := by
  rw [pendingDeliveries_eq, List.length_map]
  rcases mem_take_or_full (mem_backlog.mpr ⟨hr, hp⟩) (pageSize limit) with h | h
  · exact Or.inl (List.mem_map_of_mem h)
  · exact Or.inr h

theorem deadLetters_shows {r : DeliveryRow} (hr : r ∈ rows) (hp : r.status = .deadLetter)
    (limit : Int) : scanDelivery r ∈ deadLetters limit rows ∨
      (deadLetters limit rows).length = pageSize limit := by
  simp only [deadLetters, pageSize_eq, List.length_map]
  have hmem : r ∈ (rows.filter fun r => r.status = .deadLetter).insertionSort
      fun a b => a.newerFirst b :=
    (List.mem_insertionSort _).mpr (List.mem_filter.mpr ⟨hr, decide_eq_true hp⟩)
  rcases mem_take_or_full hmem (pageSize limit) with h | h
  · exact Or.inl (List.mem_map_of_mem h)
  · exact Or.inr h

end Scimage.Webhook
