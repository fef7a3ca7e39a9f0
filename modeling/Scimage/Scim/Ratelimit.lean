import Scimage.Lib.Framing
import Scimage.Scim.Auth
import Mathlib.Logic.Function.Basic

/-! The limiter: every caller spends a budget of its own, however requests interleave. -/
namespace Scimage.Scim

open Store (Time)

variable {ι β : Type}

/-- `rate.NewLimiter` for the configured limit and burst, and `Allow` at an instant. -/
structure Rate (β : Type) where
  new : β
  allow : Time → β → Bool × β

namespace Rate

/-- The answers of one bucket, and what is left of it. -/
def run (rate : Rate β) (b : β) : List Time → List Bool × β
  | [] => ([], b)
  | t :: ts =>
    let (ok, b) := rate.allow t b
    let (oks, b) := rate.run b ts
    (ok :: oks, b)

theorem run_snoc (rate : Rate β) (b : β) (ts : List Time) (t : Time) :
    rate.run b (ts ++ [t]) = ((rate.run b ts).1 ++ [(rate.allow t (rate.run b ts).2).1],
      (rate.allow t (rate.run b ts).2).2) := by
  induction ts generalizing b with
  | nil => rfl
  | cons u ts ih => simp only [List.cons_append, run, ih]

end Rate

/-! ### The table of buckets -/

/-- `limiter`, with the buckets where its table points to. -/
structure Limiter (β : Type) where
  buckets : String → Option Nat
  heap : List β

def newLimiter : Limiter β := ⟨fun _ => none, []⟩

namespace Limiter

/-- What `allow` does under the mutex. -/
def bucket (rate : Rate β) (l : Limiter β) (key : String) : Nat × Limiter β :=
  match l.buckets key with
  | some b => (b, l)
  | none => (l.heap.length, ⟨Function.update l.buckets key (some l.heap.length), l.heap ++ [rate.new]⟩)

/-- `b.Allow()`. -/
def spend (rate : Rate β) (l : Limiter β) (b : Nat) (now : Time) : Option (Bool × Limiter β) :=
  (l.heap[b]?).map fun x => ((rate.allow now x).1, { l with heap := l.heap.set b (rate.allow now x).2 })

end Limiter

deriving instance DecidableEq for Identity

/-- The key of `throttle`. -/
def throttleKey (id : Identity) : String := id.tenantID ++ "/" ++ id.keyID

/-! ### Requests at once -/

structure Verdict where
  id : Identity
  time : Time
  ok : Bool

/-- The limiter with the requests in it: who has found which bucket, and what has been answered. -/
structure Throttling (ι β : Type) where
  limiter : Limiter β
  found : ι → Option (Identity × Nat)
  answers : List Verdict

inductive ThrottleEvent (ι : Type) where
  | look (i : ι) (id : Identity)
  | allow (i : ι) (now : Time)

variable [DecidableEq ι]

def Throttling.step (rate : Rate β) (s : Throttling ι β) : ThrottleEvent ι → Option (Throttling ι β)
  | .look i id =>
    let (b, l) := s.limiter.bucket rate (throttleKey id)
    if s.found i = none then
      some { s with limiter := l, found := Function.update s.found i (some (id, b)) }
    else none
  | .allow i now =>
    match s.found i with
    | none => none
    | some (id, b) => (s.limiter.spend rate b now).map fun (ok, l) =>
      ⟨l, Function.update s.found i none, s.answers ++ [⟨id, now, ok⟩]⟩

inductive Throttles (rate : Rate β) : Throttling ι β → Prop where
  | start : Throttles rate ⟨newLimiter, fun _ => none, []⟩
  | step {s s' : Throttling ι β} {e : ThrottleEvent ι} : Throttles rate s → s.step rate e = some s' →
      Throttles rate s'

def answersOf (key : String) (answers : List Verdict) : List Verdict :=
  answers.filter fun a => throttleKey a.id = key

/-- A bucket is as the answers under its key have left it. -/
structure Budgeted (rate : Rate β) (s : Throttling ι β) : Prop where
  apart : ∀ k k' b, s.limiter.buckets k = some b → s.limiter.buckets k' = some b → k = k'
  found : ∀ i id b, s.found i = some (id, b) → s.limiter.buckets (throttleKey id) = some b
  fresh : ∀ k, s.limiter.buckets k = none → answersOf k s.answers = []
  spent : ∀ k b, s.limiter.buckets k = some b → ∃ x, s.limiter.heap[b]? = some x ∧
    rate.run rate.new ((answersOf k s.answers).map Verdict.time) =
      ((answersOf k s.answers).map Verdict.ok, x)

variable {rate : Rate β} {s s' : Throttling ι β}

omit [DecidableEq ι] in
theorem Budgeted.bounded (h : Budgeted rate s) {k : String} {b : Nat}
    (hb : s.limiter.buckets k = some b) : b < s.limiter.heap.length := by
  obtain ⟨x, hx, -⟩ := h.spent k b hb
  exact (List.getElem?_eq_some_iff.mp hx).1

omit [DecidableEq ι] in
theorem Budgeted.look (h : Budgeted rate s) (key : String) :
    Budgeted rate { s with limiter := (s.limiter.bucket rate key).2 } ∧
      (s.limiter.bucket rate key).2.buckets key = some (s.limiter.bucket rate key).1 ∧
      ∀ k b, s.limiter.buckets k = some b → (s.limiter.bucket rate key).2.buckets k = some b := by
  unfold Limiter.bucket
  cases hkey : s.limiter.buckets key with
  | some b => exact ⟨h, hkey, fun _ _ hk => hk⟩
  | none =>
    dsimp only
    have hold : ∀ k b, s.limiter.buckets k = some b →
        Function.update s.limiter.buckets key (some s.limiter.heap.length) k = some b := by
      intro k b hk
      have hne : k ≠ key := fun he => by cases (he ▸ hk).symm.trans hkey
      rw [Function.update_of_ne hne, hk]
    -- the new bucket lies where no key has pointed yet
    have hback : ∀ k b, Function.update s.limiter.buckets key (some s.limiter.heap.length) k = some b →
        k = key ∧ b = s.limiter.heap.length ∨ k ≠ key ∧ s.limiter.buckets k = some b := by
      intro k b hk
      by_cases he : k = key
      · subst he
        rw [Function.update_self] at hk
        exact Or.inl ⟨rfl, (Option.some.inj hk).symm⟩
      · rw [Function.update_of_ne he] at hk
        exact Or.inr ⟨he, hk⟩
    refine ⟨⟨?_, fun i id b hi => hold _ _ (h.found i id b hi), ?_, ?_⟩, Function.update_self .., hold⟩
    · intro k k' b hk hk'
      rcases hback k b hk with ⟨hkey, hb⟩ | ⟨-, hold⟩
      · rcases hback k' b hk' with ⟨hkey', -⟩ | ⟨-, hold'⟩
        · rw [hkey, hkey']
        · exact (Nat.lt_irrefl _ (hb ▸ h.bounded hold')).elim
      · rcases hback k' b hk' with ⟨-, hb⟩ | ⟨-, hold'⟩
        · exact (Nat.lt_irrefl _ (hb ▸ h.bounded hold)).elim
        · exact h.apart k k' b hold hold'
    · intro k hk
      by_cases he : k = key
      · rw [he]
        exact h.fresh key hkey
      · dsimp only at hk
        rw [Function.update_of_ne he] at hk
        exact h.fresh k hk
    · intro k b hk
      rcases hback k b hk with ⟨rfl, rfl⟩ | ⟨-, hk⟩
      · exact ⟨rate.new, by simp, by rw [h.fresh k hkey]; rfl⟩
      · obtain ⟨x, hx, hrun⟩ := h.spent k b hk
        exact ⟨x, by rw [List.getElem?_append_left (h.bounded hk), hx], hrun⟩

theorem answersOf_snoc (key : String) (answers : List Verdict) (a : Verdict) :
    answersOf key (answers ++ [a]) =
      answersOf key answers ++ if throttleKey a.id = key then [a] else [] := by
  by_cases h : throttleKey a.id = key <;> simp [answersOf, h]

theorem budgeted_step {e : ThrottleEvent ι} (h : Budgeted rate s) (hs : s.step rate e = some s') :
    Budgeted rate s' := by
  cases e with
  | look i id =>
    simp only [Throttling.step] at hs
    split at hs
    · obtain rfl := Option.some.inj hs
      obtain ⟨hlook, hkey, hold⟩ := h.look (throttleKey id)
      refine ⟨hlook.apart, ?_, hlook.fresh, hlook.spent⟩
      intro j id' b hj
      dsimp only at hj
      by_cases hji : j = i
      · subst hji
        rw [Function.update_self] at hj
        obtain ⟨rfl, rfl⟩ := Prod.mk.inj (Option.some.inj hj)
        exact hkey
      · rw [Function.update_of_ne hji] at hj
        exact hold _ _ (h.found j id' b hj)
    · cases hs
  | allow i now =>
    simp only [Throttling.step] at hs
    cases hfound : s.found i with
    | none => simp [hfound] at hs
    | some p =>
      obtain ⟨id, b⟩ := p
      have hb := h.found i id b hfound
      obtain ⟨x, hx, hrun⟩ := h.spent _ b hb
      simp only [hfound, Limiter.spend, hx, Option.map_some, Option.some.injEq] at hs
      subst hs
      refine ⟨h.apart, ?_, ?_, ?_⟩
      · intro j id' b' hj
        dsimp only at hj
        by_cases hji : j = i
        · subst hji
          simp at hj
        · rw [Function.update_of_ne hji] at hj
          exact h.found j id' b' hj
      · intro k hk
        have hne : throttleKey id ≠ k := fun he => by cases (he ▸ hb).symm.trans hk
        rw [answersOf_snoc, if_neg hne, h.fresh k hk]
        rfl
      · intro k b' hk
        by_cases hkey : throttleKey id = k
        · subst hkey
          obtain rfl := Option.some.inj (hb.symm.trans hk)
          refine ⟨(rate.allow now x).2, by simp [h.bounded hb], ?_⟩
          rw [answersOf_snoc, if_pos rfl, List.map_append, List.map_append, List.map_singleton,
            List.map_singleton, Rate.run_snoc, hrun]
        · have hne : b ≠ b' := fun he => hkey (h.apart _ _ b hb (he ▸ hk))
          obtain ⟨y, hy, hruny⟩ := h.spent k b' hk
          refine ⟨y, by rw [List.getElem?_set_ne hne, hy], ?_⟩
          rw [answersOf_snoc, if_neg hkey, List.append_nil, hruny]

theorem throttles_budgeted (h : Throttles rate s) : Budgeted rate s := by
  induction h with
  | start =>
    refine ⟨fun _ _ _ hk => ?_, fun _ _ _ hi => ?_, fun _ _ => rfl, fun _ _ hk => ?_⟩
    · cases hk
    · cases hi
    · cases hk
  | step _ hs ih => exact budgeted_step ih hs

/-! ### Callers -/

/-- No key id that is issued has a slash. -/
theorem throttleKey_injective {id id' : Identity} (hid : '/' ∉ id.keyID.toList)
    (hid' : '/' ∉ id'.keyID.toList) (h : throttleKey id = throttleKey id') : id = id' := by
  have hlist := congrArg String.toList h
  simp only [throttleKey, String.toList_append, List.append_assoc] at hlist
  obtain ⟨htenant, hkey⟩ := Framing.append_sep_inj_last hid hid' hlist
  obtain ⟨t, k⟩ := id
  obtain ⟨t', k'⟩ := id'
  exact congr (congrArg Identity.mk (String.toList_inj.mp htenant)) (String.toList_inj.mp hkey)

/-- Whatever requests are throttled side by side, those of one caller are answered as one fresh bucket
answers them: nobody else's requests, and no race for the table, spend or refill its budget. -/
theorem caller_has_own_budget (h : Throttles rate s) (hids : ∀ a ∈ s.answers, '/' ∉ a.id.keyID.toList)
    {id : Identity} (hid : '/' ∉ id.keyID.toList) :
    (s.answers.filter fun a => a.id = id).map Verdict.ok =
      (rate.run rate.new ((s.answers.filter fun a => a.id = id).map Verdict.time)).1 := by
  have hfilter : (s.answers.filter fun a => a.id = id) = answersOf (throttleKey id) s.answers := by
    refine List.filter_congr fun a ha => decide_eq_decide.mpr ⟨fun he => by rw [he], ?_⟩
    exact throttleKey_injective (hids a ha) hid
  rw [hfilter]
  have hbudget := throttles_budgeted h
  cases hb : s.limiter.buckets (throttleKey id) with
  | none =>
    rw [hbudget.fresh _ hb]
    rfl
  | some b =>
    obtain ⟨x, -, hrun⟩ := hbudget.spent _ b hb
    rw [hrun]

/-- A burst of one, before it fills again. -/
def oneAtOnce : Rate Nat := ⟨1, fun _ n => (0 < n, n - 1)⟩

def rushEvents : List (ThrottleEvent Bool) :=
  [.look true ⟨"a", "k"⟩, .look false ⟨"b", "k"⟩, .allow false 0, .look false ⟨"a", "k"⟩, .allow false 0,
    .allow true 0]

theorem throttles_foldl {es : List (ThrottleEvent ι)} (h : Throttles rate s)
    (hs : es.foldlM (Throttling.step rate) s = some s') : Throttles rate s' := by
  induction es generalizing s with
  | nil =>
    obtain rfl := Option.some.inj hs
    exact h
  | cons e es ih =>
    obtain ⟨m, hm, hs⟩ := Option.bind_eq_some_iff.mp hs
    exact ih (h.step hm) hs

theorem caller_has_own_budget_rush : ∃ s : Throttling Bool Nat,
    (s.answers.map Verdict.ok = [true, true, false]) ∧
      (s.answers.filter fun a => a.id = ⟨"a", "k"⟩).map Verdict.ok = (oneAtOnce.run 1 [0, 0]).1 := by
  obtain ⟨s, hs, hanswers⟩ : ∃ s : Throttling Bool Nat,
      rushEvents.foldlM (Throttling.step oneAtOnce) ⟨newLimiter, fun _ => none, []⟩ = some s ∧
        s.answers = [⟨⟨"b", "k"⟩, 0, true⟩, ⟨⟨"a", "k"⟩, 0, true⟩, ⟨⟨"a", "k"⟩, 0, false⟩] :=
    Option.map_eq_some_iff.mp rfl
  refine ⟨s, by rw [hanswers]; rfl, ?_⟩
  have hbudget := @caller_has_own_budget Bool Nat _ oneAtOnce s (throttles_foldl .start hs)
    (by rw [hanswers]; simp) ⟨"a", "k"⟩ (by simp)
  rw [hanswers] at hbudget ⊢
  exact hbudget

end Scimage.Scim
