import Mathlib.Data.List.Basic

/-! Records framed by a separator: the fields that must not contain it, then whatever is left. -/
namespace Framing

variable {α : Type} {sep : α} {fs gs : List (List α)} {x y : List α}

/-- Every field is followed by the separator; the last part runs to the end. -/
def frame (sep : α) (fields : List (List α)) (last : List α) : List α :=
  fields.foldr (fun field rest => field ++ sep :: rest) last

@[simp] theorem frame_nil (sep : α) (last : List α) : frame sep [] last = last := rfl

@[simp] theorem frame_cons (sep : α) (f : List α) (fs : List (List α)) (last : List α) :
    frame sep (f :: fs) last = f ++ sep :: frame sep fs last := rfl

theorem append_sep_inj {f g : List α} (hf : sep ∉ f) (hg : sep ∉ g)
    (h : f ++ sep :: x = g ++ sep :: y) : f = g ∧ x = y := by
  induction f generalizing g with
  | nil =>
    cases g with
    | nil => exact ⟨rfl, (List.cons.inj h).2⟩
    | cons b g =>
      have hb : sep = b := (List.cons.inj h).1
      exact (hg (hb ▸ List.mem_cons_self)).elim
  | cons a f ih =>
    cases g with
    | nil =>
      have ha : a = sep := (List.cons.inj h).1
      exact (hf (ha ▸ List.mem_cons_self)).elim
    | cons b g =>
      rw [List.cons_append, List.cons_append, List.cons.injEq] at h
      obtain ⟨rfl, h⟩ := h
      obtain ⟨rfl, hxy⟩ := ih (fun hm => hf (List.mem_cons_of_mem _ hm))
        (fun hm => hg (List.mem_cons_of_mem _ hm)) h
      exact ⟨rfl, hxy⟩

/-- A text is cut at its last separator in one way. -/
theorem append_sep_inj_last (hx : sep ∉ x) (hy : sep ∉ y) (h : f ++ sep :: x = g ++ sep :: y) :
    f = g ∧ x = y := by
  rcases List.append_eq_append_iff.mp h with ⟨m, rfl, hm⟩ | ⟨m, rfl, hm⟩
  · cases m with
    | nil => exact ⟨(List.append_nil f).symm, (List.cons.inj hm).2⟩
    | cons b m => exact (hx ((List.cons.inj hm).2 ▸ by simp)).elim
  · cases m with
    | nil => exact ⟨List.append_nil g, (List.cons.inj hm).2.symm⟩
    | cons b m => exact (hy ((List.cons.inj hm).2 ▸ by simp)).elim

/-- As many fields without the separator, and the same record: the same fields. -/
theorem frame_inj (hlen : fs.length = gs.length) (hf : ∀ f ∈ fs, sep ∉ f) (hg : ∀ g ∈ gs, sep ∉ g)
    (h : frame sep fs x = frame sep gs y) : fs = gs ∧ x = y := by
  induction fs generalizing gs with
  | nil =>
    cases gs with
    | nil => exact ⟨rfl, h⟩
    | cons g gs => simp at hlen
  | cons f fs ih =>
    cases gs with
    | nil => simp at hlen
    | cons g gs =>
      obtain ⟨rfl, hrest⟩ := append_sep_inj (hf f List.mem_cons_self) (hg g List.mem_cons_self) h
      obtain ⟨rfl, hxy⟩ := ih (by simpa using hlen) (fun k hk => hf k (List.mem_cons_of_mem _ hk))
        (fun k hk => hg k (List.mem_cons_of_mem _ hk)) hrest
      exact ⟨rfl, hxy⟩

end Framing
