import Mathlib.Data.Option.NAry

/-! Folds over a state in two parts, where no step mixes the parts. -/
namespace Lanes

variable {α β γ δ : Type}

abbrev both (a : Option α) (b : Option β) : Option (α × β) := Option.map₂ Prod.mk a b

theorem both_bind (a : Option α) (b : Option β) (f : α → Option γ) (g : β → Option δ) :
    ((both a b).bind fun st => both (f st.1) (g st.2)) = both (a.bind f) (b.bind g) := by
  cases a with
  | none => rfl
  | some a =>
    cases b with
    | none => cases hf : f a <;> simp [hf]
    | some b => rfl

/-- Each element brings a part of its own to each lane. -/
theorem foldlM_lanes {f : α → γ → Option α} {g : β → δ → Option β} {ε : Type}
    {step : α × β → ε → Option (α × β)} {left : ε → List γ} {right : ε → List δ} {xs : List ε}
    (h : ∀ x ∈ xs, ∀ a b, step (a, b) x = both ((left x).foldlM f a) ((right x).foldlM g b))
    (a : α) (b : β) : xs.foldlM step (a, b) =
      both ((xs.flatMap left).foldlM f a) ((xs.flatMap right).foldlM g b) := by
  induction xs generalizing a b with
  | nil => rfl
  | cons x xs ih =>
    have hrest := fun a b => ih (fun y hy => h y (List.mem_cons_of_mem x hy)) a b
    rw [List.foldlM_cons, h x List.mem_cons_self, List.flatMap_cons, List.flatMap_cons,
      List.foldlM_append, List.foldlM_append]
    simp only [Option.bind_eq_bind]
    rw [← both_bind]
    congr 1
    funext st
    exact hrest st.1 st.2

/-- A fold in two lanes is the two folds next to each other. -/
theorem foldlM_both (f : α → γ → Option α) (g : β → γ → Option β) (xs : List γ) (a : α) (b : β) :
    xs.foldlM (fun st x => both (f st.1 x) (g st.2 x)) (a, b) =
      both (xs.foldlM f a) (xs.foldlM g b) := by
  induction xs generalizing a b with
  | nil => rfl
  | cons x xs ih =>
    rw [List.foldlM_cons, List.foldlM_cons, List.foldlM_cons]
    simp only [Option.bind_eq_bind]
    rw [← both_bind]
    congr 1
    funext st
    exact ih st.1 st.2

end Lanes
