import Mathlib.Data.List.Induction
import Mathlib.Data.List.Perm.Basic
import Mathlib.Order.Lattice

/-! A receiver that keeps the newest event of each key, in whatever order they arrive. -/
namespace Newest

variable {ε κ τ ν : Type}

/-- What an event is about, when it was stamped, and what it says of its key, if anything. -/
structure Feed (ε κ τ ν : Type) where
  key : ε → κ
  stamp : ε → τ
  value : ε → Option ν

namespace Feed

variable [LinearOrder τ] (F : Feed ε κ τ ν)

/-- An event of the key that none of the key's events is newer than. -/
structure Latest (events : List ε) (k : κ) (e : ε) : Prop where
  mem : e ∈ events
  key : F.key e = k
  newest : ∀ x ∈ events, F.key x = k → F.stamp x ≤ F.stamp e

theorem Latest.of_perm {F : Feed ε κ τ ν} {order events : List ε} {k : κ} {e : ε}
    (hp : order.Perm events) (h : F.Latest order k e) : F.Latest events k e :=
  ⟨hp.mem_iff.mp h.mem, h.key, fun x hx => h.newest x (hp.mem_iff.mpr hx)⟩

variable [DecidableEq κ] (tie : Bool)

/-- An older event gives way to a newer one, and with `tie` to one as new as itself. -/
def givesWay : Option ε → ε → Bool
  | none, _ => true
  | some old, e => F.stamp old < F.stamp e || tie && F.stamp old == F.stamp e

def receive (kept : κ → Option ε) (e : ε) (k : κ) : Option ε :=
  if F.key e = k ∧ F.givesWay tie (kept k) e then some e else kept k

def received (order : List ε) : κ → Option ε := order.foldl (F.receive tie) fun _ => none

/-- What the receiver knows of a key. -/
def shown (order : List ε) (k : κ) : Option ν := (F.received tie order k).bind F.value

variable {F tie} {events order : List ε} {k : κ} {e : ε}

theorem received_snoc (order : List ε) (e : ε) (k : κ) : F.received tie (order ++ [e]) k =
    if F.key e = k ∧ F.givesWay tie (F.received tie order k) e then some e
    else F.received tie order k := by
  rw [received, List.foldl_append]
  rfl

/-- What is kept of a key is the latest of the events that have arrived. -/
theorem received_latest (tie : Bool) (order : List ε) (k : κ) :
    (F.received tie order k = none ∧ ∀ x ∈ order, F.key x ≠ k) ∨
      ∃ e, F.received tie order k = some e ∧ F.Latest order k e := by
  induction order using List.reverseRecOn with
  | nil => exact Or.inl ⟨rfl, by simp⟩
  | append_singleton order e ih =>
    rw [received_snoc]
    by_cases hk : F.key e = k
    · rcases ih with ⟨hnone, hother⟩ | ⟨old, hold, hlatest⟩
      · refine Or.inr ⟨e, by simp [hk, hnone, givesWay], by simp, hk, ?_⟩
        intro x hx hkx
        rcases List.mem_append.mp hx with hx | hx
        · exact (hother x hx hkx).elim
        · rw [List.mem_singleton.mp hx]
      · by_cases hway : F.givesWay tie (some old) e
        · have hle : F.stamp old ≤ F.stamp e := by
            simp only [givesWay, Bool.or_eq_true, Bool.and_eq_true, decide_eq_true_eq,
              beq_iff_eq] at hway
            exact hway.elim le_of_lt fun h => le_of_eq h.2
          refine Or.inr ⟨e, by simp [hk, hold, hway], by simp, hk, ?_⟩
          intro x hx hkx
          rcases List.mem_append.mp hx with hx | hx
          · exact le_trans (hlatest.newest x hx hkx) hle
          · rw [List.mem_singleton.mp hx]
        · have hle : F.stamp e ≤ F.stamp old := by
            simp only [givesWay, Bool.or_eq_true, decide_eq_true_eq, not_or] at hway
            exact le_of_not_gt hway.1
          refine Or.inr ⟨old, by simp [hk, hold, hway], by simp [hlatest.mem], hlatest.key, ?_⟩
          intro x hx hkx
          rcases List.mem_append.mp hx with hx | hx
          · exact hlatest.newest x hx hkx
          · rwa [List.mem_singleton.mp hx]
    · have hsame : ∀ x ∈ order ++ [e], F.key x = k → x ∈ order := by
        intro x hx hkx
        rcases List.mem_append.mp hx with hx | hx
        · exact hx
        · exact (hk (List.mem_singleton.mp hx ▸ hkx)).elim
      simp only [hk, false_and, if_false]
      rcases ih with ⟨hnone, hother⟩ | ⟨old, hold, hlatest⟩
      · exact Or.inl ⟨hnone, fun x hx hkx => hother x (hsame x hx hkx) hkx⟩
      · exact Or.inr ⟨old, hold, by simp [hlatest.mem], hlatest.key,
          fun x hx hkx => hlatest.newest x (hsame x hx hkx) hkx⟩

/-- An event that comes first is kept until a newer one comes. -/
theorem received_cons (hk : F.key e = k) (order : List ε)
    (hle : ∀ x ∈ order, F.key x = k → F.stamp x ≤ F.stamp e) :
    F.received false (e :: order) k = some e := by
  induction order using List.reverseRecOn with
  | nil => simp [received, receive, hk, givesWay]
  | append_singleton order x ih =>
    have hkept := ih fun y hy => hle y (List.mem_append_left _ hy)
    rw [← List.cons_append, received_snoc, hkept]
    have hstay : ¬ (F.key x = k ∧ F.givesWay false (some e) x) := by
      rintro ⟨hkx, hway⟩
      have hxe := hle x (by simp) hkx
      simp only [givesWay, Bool.false_and, Bool.or_false, decide_eq_true_eq] at hway
      exact absurd hway (not_lt_of_ge hxe)
    rw [if_neg hstay]

/-- Every latest event of a key is what some order of arrival leaves. -/
theorem exists_order (tie : Bool) (h : F.Latest events k e) :
    ∃ order : List ε, order.Perm events ∧ F.received tie order k = some e := by
  obtain ⟨before, after, rfl⟩ := List.append_of_mem h.mem
  have hperm : (e :: (before ++ after)).Perm (before ++ e :: after) := List.perm_middle.symm
  cases tie with
  | false =>
    refine ⟨_, hperm, received_cons h.key _ ?_⟩
    intro x hx
    exact h.newest x (hperm.mem_iff.mp (List.mem_cons_of_mem _ hx))
  | true =>
    refine ⟨before ++ after ++ [e], (List.perm_append_singleton _ _).trans hperm, ?_⟩
    have hway : F.givesWay true (F.received true (before ++ after) k) e := by
      rcases received_latest (F := F) true (before ++ after) k with
        ⟨hnone, _⟩ | ⟨old, hold, hlatest⟩
      · simp [hnone, givesWay]
      · have hle : F.stamp old ≤ F.stamp e :=
          h.newest old (hperm.mem_iff.mp (List.mem_cons_of_mem _ hlatest.mem)) hlatest.key
        simpa [hold, givesWay, ← le_iff_lt_or_eq] using hle
    rw [received_snoc, if_pos ⟨h.key, hway⟩]

/-- The receiver ends with `v` in every order of arrival exactly if every latest event of the
key says `v`. -/
theorem shown_iff {v : Option ν} (hnone : (∀ x ∈ events, F.key x ≠ k) → v = none) :
    (∀ order : List ε, order.Perm events → F.shown tie order k = v) ↔
      ∀ e, F.Latest events k e → F.value e = v := by
  constructor
  · intro h e he
    obtain ⟨order, hperm, hreceived⟩ := exists_order tie he
    have hshown := h order hperm
    rwa [shown, hreceived, Option.bind_some] at hshown
  · intro h order hperm
    rw [shown]
    rcases received_latest (F := F) tie order k with ⟨hr, hother⟩ | ⟨e, hr, he⟩
    · rw [hr, hnone fun x hx => hother x (hperm.mem_iff.mpr hx)]
      rfl
    · rw [hr]
      exact h e (he.of_perm hperm)

end Feed

end Newest
