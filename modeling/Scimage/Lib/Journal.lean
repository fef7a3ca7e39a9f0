import Mathlib.Data.List.Chain
import Mathlib.Logic.Function.Basic

/-! Journals of changes to keyed values: replaying them, and when they form chains. -/
namespace Journal

/-- How the lines of a journal name the key they change and its value before and after. -/
structure Format (ρ κ ι : Type) where
  key : ρ → κ
  before : ρ → Option ι
  after : ρ → Option ι

variable {ρ κ ι : Type} [DecidableEq κ]

namespace Format

variable (J : Format ρ κ ι)

/-- Sets each key to its value after the line, in order. -/
def replay (es : List ρ) : κ → Option ι :=
  es.foldl (fun state e => Function.update state (J.key e) (J.after e)) fun _ => none

@[simp] theorem replay_nil (k : κ) : J.replay [] k = none := rfl

@[simp] theorem replay_snoc (es : List ρ) (e : ρ) :
    J.replay (es ++ [e]) = Function.update (J.replay es) (J.key e) (J.after e) := by
  simp [replay]

/-- Every line of the key `k` starts from what the lines before it left of it. -/
inductive Faithful (k : κ) : List ρ → Prop where
  | nil : Faithful k []
  | snoc {es : List ρ} {e : ρ} : Faithful k es →
      (J.key e = k → J.before e = J.replay es k) → Faithful k (es ++ [e])

def linesOf (k : κ) (es : List ρ) : List ρ := es.filter fun e => J.key e = k

theorem linesOf_snoc (k : κ) (es : List ρ) (e : ρ) :
    J.linesOf k (es ++ [e]) = if J.key e = k then J.linesOf k es ++ [e] else J.linesOf k es := by
  by_cases he : J.key e = k <;> simp [linesOf, he]

variable {J} {es : List ρ} {e : ρ} {k : κ}

/-- The last line of a key says what the replay holds for it. -/
theorem replay_eq_after (h : e ∈ (J.linesOf k es).getLast?) : J.replay es k = J.after e := by
  induction es using List.reverseRecOn with
  | nil => simp [linesOf] at h
  | append_singleton es x ih =>
    rw [linesOf_snoc] at h
    by_cases hx : J.key x = k
    · obtain rfl : x = e := by simpa [hx] using h
      simp [hx]
    · simp only [hx, if_false] at h
      simpa [Function.update, Ne.symm hx] using ih h

/-- The lines of a key form a chain. -/
theorem Faithful.isChain (h : J.Faithful k es) :
    (J.linesOf k es).IsChain fun a b => J.before b = J.after a := by
  induction h with
  | nil => exact List.IsChain.nil
  | @snoc es e _ hb ih =>
    rw [linesOf_snoc]
    by_cases he : J.key e = k
    · simp only [he, if_true]
      refine List.isChain_append.mpr ⟨ih, List.isChain_singleton _, ?_⟩
      intro a ha b hb'
      obtain rfl : e = b := by simpa using hb'
      rw [hb he, replay_eq_after ha]
    · simpa only [he, if_false] using ih

/-- The key is only ever created once. -/
def Fresh (J : Format ρ κ ι) (k : κ) (es : List ρ) : Prop :=
  es.Pairwise fun a b => J.key a = k → J.key b = k → J.before b ≠ none

/-- Nothing follows the line that removes the key. -/
def Closed (J : Format ρ κ ι) (k : κ) (es : List ρ) : Prop :=
  es.Pairwise fun a b => J.key a = k → J.key b = k → J.after a ≠ none

theorem Closed.replay_eq_none (h : J.Closed k es) (he : e ∈ es) (hk : J.key e = k)
    (ha : J.after e = none) : J.replay es k = none := by
  induction es using List.reverseRecOn with
  | nil => simp at he
  | append_singleton es x ih =>
    obtain ⟨hes, _, hx⟩ := List.pairwise_append.mp h
    rcases List.mem_append.mp he with hmem | hmem
    · have hne : J.key x ≠ k := fun hxk => hx e hmem x (by simp) hk hxk ha
      simpa [Function.update, hne.symm] using ih hes hmem
    · obtain rfl := List.mem_singleton.mp hmem
      simp [← hk, ha]

theorem Faithful.closed (h : J.Faithful k es) (hf : J.Fresh k es) : J.Closed k es := by
  induction h with
  | nil => exact List.Pairwise.nil
  | @snoc es e _ hb ih =>
    obtain ⟨hes, _, hnew⟩ := List.pairwise_append.mp hf
    refine List.pairwise_append.mpr ⟨ih hes, List.pairwise_singleton _ _, ?_⟩
    intro a ha x hx hka hkx hnone
    obtain rfl := List.mem_singleton.mp hx
    have hbefore : J.before x = none := by
      rw [hb hkx]
      exact (ih hes).replay_eq_none ha hka hnone
    exact hnew a ha x (by simp) hka hkx hbefore

end Format
end Journal
