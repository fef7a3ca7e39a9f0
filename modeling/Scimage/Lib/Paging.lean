import Mathlib.Data.List.Basic
import Mathlib.Data.List.Sort

/-! A list read page by page, and the orders it may come in. -/
namespace Paging

variable {ρ π : Type}

/-- A reader that starts at the `i`-th item, counted from one, and goes on after the last item
of each page until it is past the total. `ask` answers its requests, which it numbers. -/
def walk (ask : Nat → Nat → Option π) (total size : π → Nat) : Nat → Nat → Nat → Option (List π)
  | 0, _, _ => none
  | fuel + 1, k, i =>
    match ask k i with
    | none => none
    | some p =>
      if i + size p > total p then some [p]
      else (walk ask total size fuel (k + 1) (i + size p)).map (p :: ·)

/-- A page is a window of the list. -/
structure Window (xs : List ρ) (n i : Nat) (shows : π → List ρ → Prop) (total size : π → Nat)
    (p : π) : Prop where
  total : total p = xs.length
  size : size p = ((xs.drop (i - 1)).take n).length
  items : shows p ((xs.drop (i - 1)).take n)

/-- Pages with the items that each of them shows. -/
structure Covers (xs : List ρ) (n k : Nat) (shows : Nat → π → List ρ → Prop) (pages : List π) (chunks : List (List ρ)) : Prop where
  all : chunks.flatten = xs
  length : pages.length = chunks.length
  pages : ∀ j p c, pages[j]? = some p → chunks[j]? = some c →
    shows (k + j) p c ∧ c.length ≤ n

variable {ask : Nat → Nat → Option π} {total size : π → Nat} {xs : List ρ} {n : Nat}
  {shows : Nat → π → List ρ → Prop}

theorem walk_from (hn : 0 < n)
    (hask : ∀ k i, 1 ≤ i → i ≤ max 1 xs.length →
      ∃ p, ask k i = some p ∧ Window xs n i (shows k) total size p)
    (fuel k i : Nat) (hi : 1 ≤ i) (hle : i ≤ max 1 xs.length) (hfuel : xs.length + 1 - i < fuel) :
    ∃ pages chunks, walk ask total size fuel k i = some pages ∧
      Covers (xs.drop (i - 1)) n k shows pages chunks ∧
      ∀ p ∈ pages, total p = xs.length := by
  induction fuel generalizing k i with
  | zero => omega
  | succ fuel ih =>
    obtain ⟨p, hp, hw⟩ := hask k i hi hle
    have hsize := hw.size
    rw [List.length_take, List.length_drop] at hsize
    rw [walk, hp]
    dsimp only
    by_cases hlast : i + size p > total p
    · rw [if_pos hlast]
      have htotal := hw.total
      have htake : (xs.drop (i - 1)).take n = xs.drop (i - 1) := by
        apply List.take_of_length_le
        rw [List.length_drop]
        omega
      have hshows := hw.items
      rw [htake] at hshows
      refine ⟨[p], [xs.drop (i - 1)], rfl, ⟨by simp, rfl, ?_⟩, by simpa using htotal⟩
      intro j q c hq hc
      cases j with
      | zero =>
        cases hq
        cases hc
        refine ⟨hshows, ?_⟩
        rw [List.length_drop]
        omega
      | succ j => cases hq
    · rw [if_neg hlast]
      have htotal := hw.total
      obtain ⟨pages, chunks, hwalk, hcovers, hall⟩ := ih (k + 1) (i + size p) (by omega) (by omega)
        (by omega)
      refine ⟨p :: pages, (xs.drop (i - 1)).take n :: chunks, by rw [hwalk]; rfl, ⟨?_, ?_, ?_⟩, ?_⟩
      · have hdrop : xs.drop (i + size p - 1) = (xs.drop (i - 1)).drop n := by
          rw [List.drop_drop]
          congr 1
          omega
        rw [List.flatten_cons, hcovers.all, hdrop, List.take_append_drop]
      · simp [hcovers.length]
      · intro j q c hq hc
        cases j with
        | zero =>
          cases hq
          cases hc
          exact ⟨hw.items, by simp⟩
        | succ j =>
          have hrest := hcovers.pages j q c hq hc
          rwa [show k + 1 + j = k + (j + 1) by omega] at hrest
      · intro q hq
        rcases List.mem_cons.mp hq with rfl | hq
        · exact htotal
        · exact hall q hq

/-- The reader ends, and has seen the whole list in order. -/
theorem walk_covers (hn : 0 < n) (hask : ∀ k i, 1 ≤ i → i ≤ max 1 xs.length →
      ∃ p, ask k i = some p ∧ Window xs n i (shows k) total size p) :
    ∃ fuel pages chunks, walk ask total size fuel 0 1 = some pages ∧
      Covers xs n 0 shows pages chunks ∧ ∀ p ∈ pages, total p = xs.length :=
  ⟨xs.length + 1, walk_from hn hask _ 0 1 (by omega) (by omega) (by omega)⟩

end Paging
