import Scimage.Lib.Program
import Mathlib.Algebra.BigOperators.Group.Finset.Basic
import Mathlib.Algebra.Order.BigOperators.Group.Finset
import Mathlib.Data.Fintype.Basic

/-! Calls that share a pool of connections, and when they block each other for good. -/
namespace Txn

/-- A call takes a connection, runs an effect on what it has, or gives a connection back. -/
inductive Act (Stmt : Type) where
  | acquire
  | work (e : Effect Stmt)
  | release

structure Worker (Stmt : Type) where
  held : Nat
  rest : List (Act Stmt)

namespace Pool

variable {ι Stmt : Type} [DecidableEq ι]

abbrev State (ι Stmt : Type) := ι → Worker Stmt

/-- Starting with `n` connections, a call has at most two at a time and ends with none. -/
def Paired : Nat → List (Act Stmt) → Prop
  | n, [] => n = 0
  | n, .acquire :: rest => n < 2 ∧ Paired (n + 1) rest
  | n, .work _ :: rest => Paired n rest
  | n, .release :: rest => 0 < n ∧ Paired (n - 1) rest

/-- Starting with `n` connections, a call takes one while it has another. -/
def takesSecond : Nat → List (Act Stmt) → Bool
  | _, [] => false
  | n, .acquire :: rest => 0 < n || takesSecond (n + 1) rest
  | n, .work _ :: rest => takesSecond n rest
  | n, .release :: rest => takesSecond (n - 1) rest

variable {N : Nat} {scripts : ι → List (Act Stmt)} {s t : State ι Stmt} {i : ι}

/-- What every step keeps of a call. -/
structure Inv (scripts : ι → List (Act Stmt)) (s : State ι Stmt) : Prop where
  paired : ∀ i, Paired (s i).held (s i).rest
  second : ∀ i, takesSecond (s i).held (s i).rest = true → takesSecond 0 (scripts i) = true

theorem Inv.update (hi : Inv scripts s) {w : Worker Stmt} (hp : Paired w.held w.rest)
    (hs : takesSecond w.held w.rest = true → takesSecond (s i).held (s i).rest = true) :
    Inv scripts (Function.update s i w) := by
  constructor
  · intro j
    by_cases hj : j = i
    · subst hj
      simpa using hp
    · simpa [Function.update_of_ne hj] using hi.paired j
  · intro j
    by_cases hj : j = i
    · subst hj
      simpa using fun h => hi.second j (hs h)
    · simpa [Function.update_of_ne hj] using hi.second j

variable [Fintype ι]

/-- How many connections are out. -/
def taken (s : State ι Stmt) : Nat := ∑ i, (s i).held

/-- One step of a call. A pool of `N` connections lets it take one only when one is free. -/
inductive Step (N : Nat) : State ι Stmt → State ι Stmt → Prop where
  | acquire {s : State ι Stmt} {i : ι} {rest : List (Act Stmt)}
      (hr : (s i).rest = .acquire :: rest) (hfree : taken s < N) :
      Step N s (Function.update s i ⟨(s i).held + 1, rest⟩)
  | work {s : State ι Stmt} {i : ι} {e : Effect Stmt} {rest : List (Act Stmt)}
      (hr : (s i).rest = .work e :: rest) :
      Step N s (Function.update s i ⟨(s i).held, rest⟩)
  | release {s : State ι Stmt} {i : ι} {rest : List (Act Stmt)}
      (hr : (s i).rest = .release :: rest) :
      Step N s (Function.update s i ⟨(s i).held - 1, rest⟩)

abbrev Run (N : Nat) : State ι Stmt → State ι Stmt → Prop := Relation.ReflTransGen (Step N)

def start (scripts : ι → List (Act Stmt)) : State ι Stmt := fun i => ⟨0, scripts i⟩

abbrev Reach (N : Nat) (scripts : ι → List (Act Stmt)) (s : State ι Stmt) : Prop :=
  Run N (start scripts) s

def Finished (s : State ι Stmt) : Prop := ∀ i, (s i).rest = []

/-- Some call has not finished, and none can go on. -/
def Stuck (N : Nat) (s : State ι Stmt) : Prop := ¬ Finished s ∧ ∀ t, ¬ Step N s t

/-! ### Reachable states -/

theorem inv_step (hs : Step N s t) (hi : Inv scripts s) : Inv scripts t := by
  cases hs with
  | @acquire i rest hr hfree =>
    have hp := hi.paired i
    rw [hr] at hp
    refine hi.update hp.2 fun h => ?_
    rw [hr]
    simp [takesSecond, h]
  | @work i e rest hr =>
    have hp := hi.paired i
    rw [hr] at hp
    refine hi.update hp fun h => ?_
    rwa [hr]
  | @release i rest hr =>
    have hp := hi.paired i
    rw [hr] at hp
    refine hi.update hp.2 fun h => ?_
    rwa [hr]

theorem inv_reach (hp : ∀ i, Paired 0 (scripts i)) (h : Reach N scripts s) : Inv scripts s := by
  induction h with
  | refl => exact ⟨hp, fun i h => h⟩
  | tail _ hs ih => exact inv_step hs ih

/-- A call that waits for its second connection. -/
def Waiting (w : Worker Stmt) : Prop := w.held = 1 ∧ ∃ rest, w.rest = .acquire :: rest

/-- In a stuck state every connection is held by a call that waits for another one. -/
theorem Stuck.waiting (hs : Stuck N s) (hi : Inv scripts s) (hheld : (s i).held ≠ 0) :
    Waiting (s i) := by
  have hp := hi.paired i
  cases hr : (s i).rest with
  | nil =>
    rw [hr] at hp
    exact (hheld hp).elim
  | cons a rest =>
    rw [hr] at hp
    cases a with
    | acquire =>
      have hlt : (s i).held < 2 := hp.1
      exact ⟨by omega, rest, hr⟩
    | work e => exact (hs.2 _ (.work hr)).elim
    | release => exact (hs.2 _ (.release hr)).elim

theorem Stuck.full (hs : Stuck N s) : N ≤ taken s := by
  obtain ⟨hunfinished, hstop⟩ := hs
  rw [Finished, not_forall] at hunfinished
  obtain ⟨i, hi⟩ := hunfinished
  cases hr : (s i).rest with
  | nil => exact (hi hr).elim
  | cons a rest =>
    cases a with
    | acquire =>
      by_contra hfull
      exact hstop _ (.acquire hr (Nat.lt_of_not_le hfull))
    | work e => exact (hstop _ (.work hr)).elim
    | release => exact (hstop _ (.release hr)).elim

def nesting (scripts : ι → List (Act Stmt)) : Finset ι :=
  Finset.univ.filter fun i => takesSecond 0 (scripts i) = true

theorem not_stuck (hp : ∀ i, Paired 0 (scripts i)) (hN : (nesting scripts).card < N)
    (h : Reach N scripts s) : ¬ Stuck N s := by
  intro hs
  have hi := inv_reach hp h
  have hle : ∀ i, (s i).held ≤ if i ∈ nesting scripts then 1 else 0 := by
    intro i
    by_cases hheld : (s i).held = 0
    · simp [hheld]
    · obtain ⟨hone, rest, hr⟩ := hs.waiting hi hheld
      have hnest : takesSecond (s i).held (s i).rest = true := by
        simp [hr, hone, takesSecond]
      have hmem : i ∈ nesting scripts :=
        Finset.mem_filter.mpr ⟨Finset.mem_univ i, hi.second i hnest⟩
      rw [if_pos hmem, hone]
  have htaken : taken s ≤ (nesting scripts).card := by
    refine (Finset.sum_le_sum fun i _ => hle i).trans (le_of_eq ?_)
    simp
  have hfull := hs.full
  omega

/-! ### Every run ends -/

def todo (s : State ι Stmt) : Nat := ∑ i, (s i).rest.length

theorem todo_update {w : Worker Stmt} (hw : w.rest.length < (s i).rest.length) :
    todo (Function.update s i w) < todo s := by
  refine Finset.sum_lt_sum ?_ ⟨i, Finset.mem_univ i, by simpa using hw⟩
  intro j _
  by_cases hj : j = i
  · subst hj
    simpa using Nat.le_of_lt hw
  · simp [Function.update_of_ne hj]

theorem todo_step (hs : Step N s t) : todo t < todo s := by
  cases hs with
  | acquire hr hfree => exact todo_update (by simp [hr])
  | work hr => exact todo_update (by simp [hr])
  | release hr => exact todo_update (by simp [hr])

/-- When no state ahead is stuck, every call can be brought to its end. -/
theorem exists_finished (h : ∀ t, Run N s t → ¬ Stuck N t) : ∃ t, Run N s t ∧ Finished t := by
  generalize hn : todo s = n
  induction n using Nat.strongRecOn generalizing s with
  | ind n ih =>
    by_cases hf : Finished s
    · exact ⟨s, .refl, hf⟩
    · have hgo : ∃ t, Step N s t := by
        by_contra hstop
        exact h s .refl ⟨hf, fun t ht => hstop ⟨t, ht⟩⟩
      obtain ⟨u, hu⟩ := hgo
      obtain ⟨t, hut, ht⟩ := ih (todo u) (hn ▸ todo_step hu)
        (fun t ht => h t (.head hu ht)) rfl
      exact ⟨t, .head hu hut, ht⟩

/-! ### A deadlock for every pool that is small enough -/

theorem taken_update_zero (hz : (s i).held = 0) (w : Worker Stmt) :
    taken (Function.update s i w) = taken s + w.held := by
  have hsplit : ∀ f : State ι Stmt, taken f = (f i).held + ∑ j ∈ Finset.univ.erase i, (f j).held :=
    fun f => (Finset.add_sum_erase _ _ (Finset.mem_univ i)).symm
  have hrest : ∑ j ∈ Finset.univ.erase i, (Function.update s i w j).held =
      ∑ j ∈ Finset.univ.erase i, (s j).held := by
    refine Finset.sum_congr rfl fun j hj => ?_
    rw [Function.update_of_ne (Finset.ne_of_mem_erase hj)]
  rw [hsplit (Function.update s i w), hsplit s, hrest, hz, Function.update_self]
  omega

/-- A call that will nest runs alone until it waits for its second connection. -/
theorem exists_waiting (hfree : taken s < N) (hz : (s i).held = 0) :
    ∀ (rest : List (Act Stmt)) (n : Nat), n < 2 → Paired n rest → takesSecond n rest = true →
      ∃ w, Waiting w ∧ Run N (Function.update s i ⟨n, rest⟩) (Function.update s i w) := by
  intro rest
  induction rest with
  | nil =>
    intro n _ _ hn
    simp [takesSecond] at hn
  | cons a rest ih =>
    intro n hlt hp hn
    cases a with
    | acquire =>
      rcases Nat.eq_zero_or_pos n with rfl | hpos
      · obtain ⟨w, hw, hrun⟩ := ih 1 (by omega) hp.2 (by simpa [takesSecond] using hn)
        refine ⟨w, hw, .head ?_ hrun⟩
        have hr : (Function.update s i ⟨0, .acquire :: rest⟩ i).rest = .acquire :: rest := by simp
        have hroom : taken (Function.update s i ⟨0, .acquire :: rest⟩) < N := by
          rw [taken_update_zero hz]
          simpa using hfree
        simpa using Step.acquire hr hroom
      · exact ⟨⟨n, .acquire :: rest⟩, ⟨by simp; omega, rest, rfl⟩, .refl⟩
    | work e =>
      obtain ⟨w, hw, hrun⟩ := ih n hlt hp hn
      refine ⟨w, hw, .head ?_ hrun⟩
      have hr : (Function.update s i ⟨n, .work e :: rest⟩ i).rest = .work e :: rest := by simp
      simpa using Step.work (N := N) hr
    | release =>
      obtain ⟨w, hw, hrun⟩ := ih (n - 1) (by omega) hp.2 hn
      refine ⟨w, hw, .head ?_ hrun⟩
      have hr : (Function.update s i ⟨n, .release :: rest⟩ i).rest = .release :: rest := by simp
      simpa using Step.release (N := N) hr

/-- The calls in `T` wait for their second connection, and the others have not started. -/
structure Parked (scripts : ι → List (Act Stmt)) (T : Finset ι) (s : State ι Stmt) : Prop where
  waiting : ∀ i ∈ T, Waiting (s i)
  idle : ∀ i ∉ T, s i = ⟨0, scripts i⟩

theorem Parked.taken {T : Finset ι} (h : Parked scripts T s) : taken s = T.card := by
  have heach : ∀ i, (s i).held = if i ∈ T then 1 else 0 := by
    intro i
    by_cases hi : i ∈ T
    · rw [if_pos hi, (h.waiting i hi).1]
    · rw [if_neg hi, h.idle i hi]
  simp [Pool.taken, heach]

theorem exists_parked (hp : ∀ i, Paired 0 (scripts i)) (T : Finset ι) :
    T ⊆ nesting scripts → T.card ≤ N → ∃ s, Reach N scripts s ∧ Parked scripts T s := by
  induction T using Finset.induction_on with
  | empty =>
    intro _ _
    exact ⟨start scripts, .refl, fun i hi => by simp at hi, fun i _ => rfl⟩
  | insert i T hi ih =>
    intro hsub hcard
    rw [Finset.card_insert_of_notMem hi] at hcard
    obtain ⟨s, hs, hparked⟩ := ih (fun j hj => hsub (Finset.mem_insert_of_mem hj)) (by omega)
    have hidle := hparked.idle i hi
    have hsecond := (Finset.mem_filter.mp (hsub (Finset.mem_insert_self i T))).2
    obtain ⟨w, hw, hrun⟩ := exists_waiting (N := N) (s := s) (i := i)
      (by rw [hparked.taken]; omega) (by rw [hidle]) (scripts i) 0 (by omega) (hp i) hsecond
    rw [← hidle, Function.update_eq_self] at hrun
    refine ⟨_, hs.trans hrun, ?_, ?_⟩
    · intro j hj
      by_cases hji : j = i
      · subst hji
        simpa using hw
      · rw [Function.update_of_ne hji]
        exact hparked.waiting j (Finset.mem_of_mem_insert_of_ne hj hji)
    · intro j hj
      rw [Finset.mem_insert, not_or] at hj
      rw [Function.update_of_ne hj.1]
      exact hparked.idle j hj.2

/-- While `N` calls wait for a second connection, no step of the others helps them. -/
theorem waiting_step {T : Finset ι} (hT : T.card = N) (hw : ∀ i ∈ T, Waiting (s i))
    (hs : Step N s t) : ∀ i ∈ T, Waiting (t i) := by
  have hfull : N ≤ taken s := by
    rw [← hT, Finset.card_eq_sum_ones]
    refine (Finset.sum_le_sum fun i hi => le_of_eq (hw i hi).1.symm).trans ?_
    exact Finset.sum_le_sum_of_subset (Finset.subset_univ T)
  intro j hj
  obtain ⟨hone, rest', hr'⟩ := hw j hj
  cases hs with
  | acquire hr hfree => omega
  | @work i e rest hr =>
    have hji : j ≠ i := by
      rintro rfl
      rw [hr'] at hr
      simp at hr
    rw [Function.update_of_ne hji]
    exact hw j hj
  | @release i rest hr =>
    have hji : j ≠ i := by
      rintro rfl
      rw [hr'] at hr
      simp at hr
    rw [Function.update_of_ne hji]
    exact hw j hj

theorem exists_stuck (hp : ∀ i, Paired 0 (scripts i)) (hpos : 0 < N)
    (hN : N ≤ (nesting scripts).card) : ∃ s, Reach N scripts s ∧ Stuck N s := by
  obtain ⟨T, hsub, hT⟩ := Finset.exists_subset_card_eq hN
  obtain ⟨s, hs, hparked⟩ := exists_parked hp T hsub (Nat.le_of_eq hT)
  have hw := hparked.waiting
  clear hparked
  generalize hn : todo s = n
  induction n using Nat.strongRecOn generalizing s with
  | ind n ih =>
    by_cases hgo : ∃ t, Step N s t
    · obtain ⟨t, ht⟩ := hgo
      exact ih (todo t) (hn ▸ todo_step ht) t (.tail hs ht) (waiting_step hT hw ht) rfl
    · refine ⟨s, hs, fun hf => ?_, fun t ht => hgo ⟨t, ht⟩⟩
      obtain ⟨i, hi⟩ := Finset.card_pos.mp (hT ▸ hpos)
      obtain ⟨_, rest, hr⟩ := hw i hi
      rw [hf i] at hr
      simp at hr

/-- A pool deadlocks exactly if as many calls nest as it has connections. -/
theorem stuck_iff (hp : ∀ i, Paired 0 (scripts i)) (hpos : 0 < N) :
    (∃ s, Reach N scripts s ∧ Stuck N s) ↔ N ≤ (nesting scripts).card := by
  constructor
  · rintro ⟨s, hs, hstuck⟩
    by_contra hlt
    exact not_stuck hp (Nat.lt_of_not_le hlt) hs hstuck
  · exact exists_stuck hp hpos

end Pool

/-! ### The connections of a program -/

namespace Prog

variable {Stmt : Type} {Rows : Stmt → Type} {ε α β : Type}

/-- The answers a call gets, by the number of its question. -/
abbrev Answers (Rows : Stmt → Type) (ε : Type) := Nat → (e : Effect Stmt) → e.Answer Rows ε

/-- What a program does with connections. `opened` says whether its transaction has one, which
it keeps until the commit or the rollback; a statement outside the transaction takes another. -/
def script (answer : Answers Rows ε) : Prog Rows ε α → Bool → Nat → List (Act Stmt)
  | .done _, _, _ => []
  | .call .begin k, opened, n =>
    match answer n .begin with
    | .ok () => .acquire :: .work .begin :: (k (.ok ())).script answer true (n + 1)
    | .error e => .acquire :: .work .begin :: .release :: (k (.error e)).script answer opened (n + 1)
  | .call (.tx s) k, opened, n =>
    .work (.tx s) :: (k (answer n (.tx s))).script answer opened (n + 1)
  | .call (.pool s) k, opened, n =>
    .acquire :: .work (.pool s) :: .release ::
      (k (answer n (.pool s))).script answer opened (n + 1)
  | .call .commit k, true, n =>
    .work .commit :: .release :: (k (answer n .commit)).script answer false (n + 1)
  | .call .commit k, false, n => (k (answer n .commit)).script answer false (n + 1)
  | .call .rollback k, true, n =>
    .work .rollback :: .release :: (k ()).script answer false (n + 1)
  | .call .rollback k, false, n => (k ()).script answer false (n + 1)
  | .call .now k, opened, n => (k (answer n .now)).script answer opened (n + 1)

/-- A program that begins no transaction of its own. -/
def Plain : Prog Rows ε α → Prop
  | .done _ => True
  | .call .begin _ => False
  | .call (.tx _) k => ∀ a, (k a).Plain
  | .call (.pool _) k => ∀ a, (k a).Plain
  | .call .commit k => ∀ a, (k a).Plain
  | .call .rollback k => (k ()).Plain
  | .call .now k => ∀ t, (k t).Plain

/-- A program that has one transaction at a time and ends it, whatever the answers. -/
def Closes : Bool → Prog Rows ε α → Prop
  | opened, .done _ => opened = false
  | opened, .call .begin k =>
    opened = false ∧ (k (.ok ())).Closes true ∧ ∀ e, (k (.error e)).Closes false
  | opened, .call (.tx _) k => ∀ a, (k a).Closes opened
  | opened, .call (.pool _) k => ∀ a, (k a).Closes opened
  | _, .call .commit k => ∀ a, (k a).Closes false
  | _, .call .rollback k => (k ()).Closes false
  | opened, .call .now k => ∀ t, (k t).Closes opened

@[simp] theorem plain_done (a : α) : (.done a : Prog Rows ε α).Plain := trivial

theorem plain_call {e : Effect Stmt} {k : e.Answer Rows ε → Prog Rows ε α} (he : e ≠ .begin)
    (hk : ∀ a, (k a).Plain) : (Prog.call e k).Plain := by
  cases e with
  | begin => exact (he rfl).elim
  | rollback => exact hk ()
  | _ => exact hk

theorem plain_bind {p : Prog Rows ε α} {f : α → Prog Rows ε β} (hp : p.Plain)
    (hf : ∀ a, (f a).Plain) : (p >>= f).Plain := by
  induction p with
  | done a => exact hf a
  | call e k ih =>
    cases e with
    | begin => exact hp.elim
    | tx s => exact fun a => ih a (hp a)
    | pool s => exact fun a => ih a (hp a)
    | commit => exact fun a => ih a (hp a)
    | rollback => exact ih () hp
    | now => exact fun t => ih t (hp t)

theorem Plain.closes {p : Prog Rows ε α} (hp : p.Plain) : p.Closes false := by
  induction p with
  | done a => rfl
  | call e k ih =>
    cases e with
    | begin => exact hp.elim
    | tx s => exact fun a => ih a (hp a)
    | pool s => exact fun a => ih a (hp a)
    | commit => exact fun a => ih a (hp a)
    | rollback => exact ih () hp
    | now => exact fun t => ih t (hp t)

@[simp] theorem closes_done (a : α) : (.done a : Prog Rows ε α).Closes false := rfl

theorem closes_begin {k : Except ε Unit → Prog Rows ε α} (hok : (k (.ok ())).Closes true)
    (herr : ∀ e, (k (.error e)).Closes false) : (Prog.call .begin k).Closes false :=
  ⟨rfl, hok, herr⟩

theorem closes_bind {p : Prog Rows ε α} {f : α → Prog Rows ε β} {opened : Bool}
    (hp : p.Closes opened) (hf : ∀ a, (f a).Closes false) : (p >>= f).Closes opened := by
  induction p generalizing opened with
  | done a =>
    obtain rfl : opened = false := hp
    exact hf a
  | call e k ih =>
    cases e with
    | begin => exact ⟨hp.1, ih _ hp.2.1, fun e => ih _ (hp.2.2 e)⟩
    | tx s => exact fun a => ih a (hp a)
    | pool s => exact fun a => ih a (hp a)
    | commit => exact fun a => ih a (hp a)
    | rollback => exact ih () hp
    | now => exact fun t => ih t (hp t)

/-- A rollback at the end gives back the connection of a transaction. -/
theorem closes_rollback {p : Prog Rows ε α} (hp : p.Plain) (opened : Bool) :
    (p >>= fun a => perform .rollback >>= fun _ => pure a).Closes opened := by
  induction p generalizing opened with
  | done a => exact rfl
  | call e k ih =>
    cases e with
    | begin => exact hp.elim
    | tx s => exact fun a => ih a (hp a) opened
    | pool s => exact fun a => ih a (hp a) opened
    | commit => exact fun a => ih a (hp a) false
    | rollback => exact ih () hp false
    | now => exact fun t => ih t (hp t) opened

theorem Closes.paired {p : Prog Rows ε α} {opened : Bool} (hp : p.Closes opened)
    (answer : Answers Rows ε) (n : Nat) :
    Pool.Paired (if opened then 1 else 0) (p.script answer opened n) := by
  induction p generalizing opened n with
  | done a =>
    obtain rfl : opened = false := hp
    rfl
  | call e k ih =>
    cases e with
    | begin =>
      obtain ⟨rfl, hok, herr⟩ := hp
      cases ha : answer n .begin with
      | ok u =>
        simp only [script, ha]
        exact ⟨by decide, ih _ hok (n + 1)⟩
      | error e =>
        simp only [script, ha]
        exact ⟨by decide, by decide, ih _ (herr e) (n + 1)⟩
    | tx s => exact ih _ (hp _) (n + 1)
    | pool s =>
      refine ⟨by cases opened <;> decide, by cases opened <;> decide, ?_⟩
      exact ih _ (hp _) (n + 1)
    | commit =>
      cases opened with
      | true => exact ⟨by decide, ih _ (hp _) (n + 1)⟩
      | false => exact ih _ (hp _) (n + 1)
    | rollback =>
      cases opened with
      | true => exact ⟨by decide, ih () hp (n + 1)⟩
      | false => exact ih () hp (n + 1)
    | now => exact ih _ (hp _) (n + 1)

attribute [irreducible] Plain Closes

end Prog

end Txn
