import Scimage.Aria.Detect

/-! The two pointers of a cluster search, test by test. -/
namespace Scimage.Aria

open Store (Time)

variable {sorted times : List Time} {window : Int} {minCount : Nat}

structure Cursor where
  i : Nat
  j : Nat
  best : Nat
  bStart : Time
  bEnd : Time

def Cursor.start : Cursor := ⟨0, 0, 0, 0, 0⟩

/-- One test of the inner loop: the left pointer moves, or the run is compared with the best one and
the right pointer moves. `none` is an index out of range. -/
def advance (sorted : List Time) (window : Int) (c : Cursor) : Option Cursor :=
  match sorted[c.i]?, sorted[c.j]? with
  | some t, some s =>
    if window < Webhook.sub t s then some { c with j := c.j + 1 }
    else if c.best < c.i + 1 - c.j then some ⟨c.i + 1, c.j, c.i + 1 - c.j, s, t⟩
    else some { c with i := c.i + 1 }
  | _, _ => none

/-- The loop, for `n` tests at most. -/
def walk (sorted : List Time) (window : Int) : Nat → Cursor → Option Cursor
  | 0, c => some c
  | n + 1, c =>
    if c.i < sorted.length then
      match advance sorted window c with
      | none => none
      | some c => walk sorted window n c
    else some c

/-- The cluster as the loop finds it; the outer `none` is an index out of range. -/
def pointerCluster (times : List Time) (window : Int) (minCount : Nat) :
    Option (Option (Nat × Time × Time)) :=
  if times.length < minCount then some none
  else
    (walk (times.insertionSort (· ≤ ·)) window (2 * times.length) .start).map fun c =>
      if minCount ≤ c.best then some (c.best, c.bStart, c.bEnd) else none

def tooFar (window : Int) (t s : Int) : Bool := window < Webhook.sub t s

theorem tooFar_self (hwindow : 0 ≤ window) (t : Int) : tooFar window t t = false := by
  rw [tooFar, decide_eq_false_iff_not]
  unfold Webhook.sub Webhook.maxDuration
  split_ifs <;> omega

/-! ### The pointers follow the pass -/

/-- What the pass over the first `i` instants knows is what the pointers know. -/
structure Follows (window : Int) (sorted : List Time) (c : Cursor) : Prop where
  left : c.j ≤ c.i
  right : c.i ≤ sorted.length
  best : c.best = (Cluster.scan (tooFar window) (sorted.take c.i)).best
  bStart : c.bStart = (Cluster.scan (tooFar window) (sorted.take c.i)).start
  bEnd : c.bEnd = (Cluster.scan (tooFar window) (sorted.take c.i)).stop
  live : ∀ t, sorted[c.i]? = some t →
    ((Cluster.scan (tooFar window) (sorted.take c.i)).live ++ [t]).dropWhile (tooFar window t) =
      ((sorted.take (c.i + 1)).drop c.j).dropWhile (tooFar window t)

theorem follows_start (window : Int) (sorted : List Time) : Follows window sorted .start where
  left := Nat.le_refl 0
  right := Nat.zero_le _
  best := rfl
  bStart := rfl
  bEnd := rfl
  live t ht := by
    have htake : sorted.take 1 = [t] := by
      rw [List.take_add_one, List.take_zero, List.nil_append]
      exact congrArg Option.toList ht
    exact congrArg (List.dropWhile (tooFar window t)) htake.symm

theorem take_snoc {i : Nat} {t : Time} (h : sorted[i]? = some t) :
    sorted.take (i + 1) = sorted.take i ++ [t] := by
  rw [List.take_add_one, h]
  rfl

theorem drop_take_cons {i j : Nat} {s : Time} (hj : j ≤ i) (hs : sorted[j]? = some s) :
    (sorted.take (i + 1)).drop j = s :: (sorted.take (i + 1)).drop (j + 1) := by
  obtain ⟨hlt, hget⟩ := List.getElem?_eq_some_iff.mp hs
  have hlen : j < (sorted.take (i + 1)).length := by
    rw [List.length_take]
    omega
  rw [List.drop_eq_getElem_cons hlen, List.getElem_take, hget]

/-- While the right pointer is inside, both instants are there, and the pointers keep following. -/
theorem advance_follows {c : Cursor} (hwindow : 0 ≤ window) (hc : Follows window sorted c)
    (hlt : c.i < sorted.length) : ∃ c', advance sorted window c = some c' ∧
      Follows window sorted c' ∧ c'.i + c'.j = c.i + c.j + 1 := by
  have hleft := hc.left
  have hi : sorted[c.i]? = some sorted[c.i] := List.getElem?_eq_getElem hlt
  have hj : sorted[c.j]? = some sorted[c.j] := List.getElem?_eq_getElem (by omega)
  have hlive := hc.live _ hi
  rw [drop_take_cons hleft hj] at hlive
  rw [advance, hi, hj]
  generalize hs : sorted[c.j] = s at *
  generalize ht : sorted[c.i] = t at *
  dsimp only
  split_ifs with hfar hbest
  · have hfar' : tooFar window t s = true := decide_eq_true hfar
    have hne : c.j ≠ c.i := by
      intro heq
      have hsame : s = t := by rw [← hs, ← ht]; simp [heq]
      rw [hsame, tooFar_self hwindow] at hfar'
      cases hfar'
    refine ⟨_, rfl, ⟨by dsimp only; omega, hc.right, hc.best, hc.bStart, hc.bEnd, ?_⟩,
      by dsimp only; omega⟩
    intro t' ht'
    rw [hi, Option.some.injEq] at ht'
    subst ht'
    rw [hlive, List.dropWhile_cons_of_pos hfar']
  all_goals
    have hnear : ¬ tooFar window t s = true := by simpa [tooFar] using hfar
    rw [List.dropWhile_cons_of_neg hnear, ← drop_take_cons hleft hj] at hlive
    have hlength : ((sorted.take (c.i + 1)).drop c.j).length = c.i + 1 - c.j := by
      rw [List.length_drop, List.length_take]
      omega
    have hnext : ∀ t', sorted[c.i + 1]? = some t' →
        (sorted.take (c.i + 1 + 1)).drop c.j = (sorted.take (c.i + 1)).drop c.j ++ [t'] := by
      intro t' ht'
      rw [take_snoc ht', List.drop_append_of_le_length]
      rw [List.length_take]
      omega
    have hscan : Cluster.scan (tooFar window) (sorted.take (c.i + 1)) =
        Cluster.step (tooFar window) (Cluster.scan (tooFar window) (sorted.take c.i)) t := by
      rw [take_snoc hi, Cluster.scan_snoc]
    rw [Cluster.step, hlive, hlength, ← hc.best] at hscan
  · rw [if_pos hbest, drop_take_cons hleft hj] at hscan
    refine ⟨_, rfl, ⟨by dsimp only; omega, hlt, ?_, ?_, ?_, ?_⟩, by dsimp only; omega⟩
    · rw [hscan]
    · rw [hscan]
      rfl
    · rw [hscan]
    · intro t' ht'
      rw [hscan, hnext t' ht', ← drop_take_cons hleft hj]
  · rw [if_neg hbest] at hscan
    refine ⟨_, rfl, ⟨by dsimp only; omega, hlt, ?_, ?_, ?_, ?_⟩, by dsimp only; omega⟩
    · rw [hscan, hc.best]
    · rw [hscan]
      exact hc.bStart
    · rw [hscan]
      exact hc.bEnd
    · intro t' ht'
      rw [hscan, hnext t' ht']

/-- The loop reads no instant out of range, and each test moves one pointer. -/
theorem walk_follows (hwindow : 0 ≤ window) (n : Nat) : ∀ {c : Cursor}, Follows window sorted c →
    ∃ c', walk sorted window n c = some c' ∧ Follows window sorted c' ∧
      (c'.i = sorted.length ∨ c'.i + c'.j = c.i + c.j + n) := by
  induction n with
  | zero =>
    intro c hc
    exact ⟨c, rfl, hc, Or.inr rfl⟩
  | succ n ih =>
    intro c hc
    rw [walk]
    split_ifs with hlt
    · obtain ⟨c', hadvance, hc', hsum⟩ := advance_follows hwindow hc hlt
      obtain ⟨c'', hwalk, hc'', hend⟩ := ih hc'
      rw [hadvance]
      exact ⟨c'', hwalk, hc'', hend.imp_right fun h => by omega⟩
    · have hright := hc.right
      exact ⟨c, rfl, hc, Or.inl (by omega)⟩

/-- Two tests for each instant are enough. -/
theorem walk_ends (hwindow : 0 ≤ window) (sorted : List Time) :
    ∃ c, walk sorted window (2 * sorted.length) .start = some c ∧ Follows window sorted c ∧
      c.i = sorted.length := by
  obtain ⟨c, hwalk, hc, hend⟩ := walk_follows hwindow (2 * sorted.length) (follows_start window sorted)
  have hleft := hc.left
  have hright := hc.right
  have hsum : Cursor.start.i + Cursor.start.j = 0 := rfl
  exact ⟨c, hwalk, hc, by omega⟩

theorem pointerCluster_eq (hwindow : 0 ≤ window) (times : List Time) (minCount : Nat) :
    pointerCluster times window minCount = some (maxCluster times window minCount) := by
  rw [pointerCluster, maxCluster]
  split_ifs with hlen
  · rfl
  · obtain ⟨c, hwalk, hc, hend⟩ := walk_ends hwindow (times.insertionSort (· ≤ ·))
    rw [List.length_insertionSort] at hwalk
    have hbest := hc.best
    have hstart := hc.bStart
    have hstop := hc.bEnd
    rw [hend, List.take_length] at hbest hstart hstop
    rw [hwalk, Option.map_some, hbest, hstart, hstop]
    rfl

/-! ### The densest window -/

theorem insertionSort_perm {times' : List Time} (h : times'.Perm times) :
    times'.insertionSort (· ≤ ·) = times.insertionSort (· ≤ ·) := by
  have hboth : (times'.insertionSort (· ≤ ·)).Perm (times.insertionSort (· ≤ ·)) :=
    (List.perm_insertionSort _ _).trans (h.trans (List.perm_insertionSort _ _).symm)
  exact hboth.eq_of_pairwise (fun a b _ _ => Int.le_antisymm) (List.pairwise_insertionSort _ _)
    (List.pairwise_insertionSort _ _)

theorem maxCluster_perm {times' : List Time} (h : times'.Perm times) (window : Int)
    (minCount : Nat) : maxCluster times' window minCount = maxCluster times window minCount := by
  rw [maxCluster, maxCluster, h.length_eq, insertionSort_perm h]

theorem tooFar_of_fits (hwindow : 0 ≤ window) {t s : Int} (h : t - s ≤ Webhook.maxDuration) :
    tooFar window t s = decide (window < t - s) := by
  rw [tooFar, decide_eq_decide]
  unfold Webhook.sub
  unfold Webhook.maxDuration at *
  split_ifs <;> omega

/-- Ages are compared as they are. -/
def Exact (window : Int) (times : List Time) : Prop :=
  ∀ t ∈ times, ∀ s ∈ times, tooFar window t s = decide (window < t - s)

/-- The distances between the instants fit in a duration. -/
def Spans (times : List Time) : Prop := ∀ t ∈ times, ∀ s ∈ times, t - s ≤ Webhook.maxDuration

theorem exact_of_spans (hwindow : 0 ≤ window) (h : Spans times) : Exact window times := by
  intro t ht s hs
  exact tooFar_of_fits hwindow (h t ht s hs)

theorem exact_of_short (hwindow : 0 ≤ window) (h : window < Webhook.maxDuration)
    (times : List Time) : Exact window times := by
  intro t _ s _
  rw [tooFar, decide_eq_decide]
  exact lt_sub_iff hwindow h t s

/-- The pass over the sorted instants, with ages as they are. -/
def bestRun (window : Int) (times : List Time) : Cluster.Scan :=
  Cluster.scan (fun t s => decide (window < t - s)) (times.insertionSort (· ≤ ·))

/-- What is found is the best run of the pass, when it is long enough. -/
theorem maxCluster_eq_some (h : Exact window times) {c : Nat × Time × Time} :
    maxCluster times window minCount = some c ↔ minCount ≤ times.length ∧
      minCount ≤ (bestRun window times).best ∧
      ((bestRun window times).best, (bestRun window times).start, (bestRun window times).stop) = c := by
  rw [maxCluster, scan_exact h, ← bestRun]
  dsimp only
  split_ifs with hlen hbest
  · exact iff_of_false (fun h => by cases h) fun h => by omega
  · rw [Option.some.injEq]
    exact ⟨fun h => ⟨Nat.not_lt.mp hlen, hbest, h⟩, fun h => h.2.2⟩
  · exact iff_of_false (fun h => by cases h) fun h => hbest h.2.1

theorem bestRun_densest (h : (bestRun window times).best ≠ 0) :
    Cluster.Densest window times (bestRun window times).best (bestRun window times).start
      (bestRun window times).stop := by
  refine Cluster.densest_perm (List.perm_insertionSort (· ≤ ·) times) ?_
  refine Cluster.scan_densest (fun t s => ?_) (List.pairwise_insertionSort _ _) h
  rw [decide_eq_true_eq]

/-- A cluster is the earliest of the densest runs. -/
theorem maxCluster_eq_some_iff (h : Exact window times) (hcount : 1 ≤ minCount) {count : Nat}
    {start stop : Time} : maxCluster times window minCount = some (count, start, stop) ↔
      Cluster.Densest window times count start stop ∧ minCount ≤ count := by
  rw [maxCluster_eq_some h]
  constructor
  · rintro ⟨-, hbest, heq⟩
    cases heq
    exact ⟨bestRun_densest (Nat.ne_of_gt (Nat.lt_of_lt_of_le hcount hbest)), hbest⟩
  · rintro ⟨hdensest, hle⟩
    have hwithin := Cluster.between_le_within hdensest.near times
    rw [hdensest.count] at hwithin
    have hlen := Nat.le_trans hwithin (Cluster.within_le_length window start times)
    rw [← Cluster.within_perm (List.perm_insertionSort (· ≤ ·) times)] at hwithin
    have hbest : count ≤ (bestRun window times).best :=
      (Cluster.le_best_iff (fun t s => decide_eq_true_iff)
        (List.pairwise_insertionSort (· ≤ ·) times) (Nat.lt_of_lt_of_le hcount hle)).mpr ⟨start, hwithin⟩
    have hpos : (bestRun window times).best ≠ 0 := by omega
    obtain ⟨hcount', hstart, hstop⟩ := Cluster.densest_unique (bestRun_densest hpos) hdensest
    exact ⟨Nat.le_trans hle hlen, Nat.le_trans hle hbest, by rw [hcount', hstart, hstop]⟩

/-- The loop ends within range, and finds a window that no other one beats, whatever the order. -/
theorem pointerCluster_finds (times : List Time) (window : Int) (minCount : Nat)
    (hwindow : 0 ≤ window) (hcount : 1 ≤ minCount) (hspan : Spans times) :
    (∀ n, ∃ c, walk (times.insertionSort (· ≤ ·)) window n .start = some c ∧ c.j ≤ c.i) ∧
      (∃ c, walk (times.insertionSort (· ≤ ·)) window (2 * times.length) .start = some c ∧
        c.i = times.length) ∧
      ∃ cluster, pointerCluster times window minCount = some cluster ∧
        (cluster.isSome ↔ ∃ a, minCount ≤ Cluster.within window a times) ∧
        (∀ count start stop, cluster = some (count, start, stop) →
          (∀ a, Cluster.within window a times ≤ count) ∧
          (∃ a, Cluster.within window a times = count) ∧
          start ∈ times ∧ stop ∈ times ∧ stop - start ≤ window ∧
          (times.filter fun t => start ≤ t ∧ t ≤ stop).length = count) ∧
        ∀ times' : List Time, times'.Perm times →
          pointerCluster times' window minCount = some cluster := by
  refine ⟨fun n => ?_, ?_, _, pointerCluster_eq hwindow times minCount,
    maxCluster_isSome (exact_of_spans hwindow hspan) hcount, ?_, ?_⟩
  · obtain ⟨c, hwalk, hc, -⟩ := walk_follows hwindow n (follows_start window _)
    exact ⟨c, hwalk, hc.left⟩
  · obtain ⟨c, hwalk, -, hend⟩ := walk_ends hwindow (times.insertionSort (· ≤ ·))
    rw [List.length_insertionSort] at hwalk hend
    exact ⟨c, hwalk, hend⟩
  · intro count start stop h
    obtain ⟨hdensest, -⟩ := (maxCluster_eq_some_iff (exact_of_spans hwindow hspan) hcount).mp h
    have hwithin := Cluster.between_le_within hdensest.near times
    rw [hdensest.count] at hwithin
    exact ⟨hdensest.most, ⟨start, Nat.le_antisymm (hdensest.most start) hwithin⟩,
      hdensest.start_mem, hdensest.stop_mem, hdensest.near, hdensest.count⟩
  · intro times' hperm
    rw [pointerCluster_eq hwindow, maxCluster_perm hperm]

theorem pointerCluster_finds_burst :
    ∃ c, walk ([7, 3, 5].insertionSort (· ≤ ·)) 2 6 .start = some c ∧ c.i = 3 :=
  (pointerCluster_finds [7, 3, 5] 2 2 (by decide) (by decide) (by unfold Spans; decide)).2.1

end Scimage.Aria
