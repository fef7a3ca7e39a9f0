import Mathlib.Data.List.Induction
import Mathlib.Data.List.Sort
import Mathlib.Data.List.TakeWhile

/-! The densest run of sorted instants: one pass, with the instants that are still near. -/
namespace Cluster

/-- `live` are the instants that are near the last one. -/
structure Scan where
  live : List Int
  best : Nat
  start : Int
  stop : Int

def Scan.empty : Scan := ⟨[], 0, 0, 0⟩

variable (far : Int → Int → Bool)

/-- The instants that are far from `t` go, and the run is compared with the best one. -/
def step (st : Scan) (t : Int) : Scan :=
  let live := (st.live ++ [t]).dropWhile (far t)
  if st.best < live.length then ⟨live, live.length, live.headD t, t⟩ else { st with live }

def scan (ts : List Int) : Scan := ts.foldl (step far) .empty

variable {far} {window : Int} {ts : List Int} {n : Nat}

/-- How many instants there are in the window that starts at `a`. -/
def within (window a : Int) (ts : List Int) : Nat :=
  (ts.filter fun s => a ≤ s ∧ s ≤ a + window).length

theorem scan_snoc (ts : List Int) (t : Int) : scan far (ts ++ [t]) = step far (scan far ts) t := by
  rw [scan, List.foldl_append]
  rfl

/-- What went is far from something that has been read, and no window holds more than the best. -/
structure Reads (window : Int) (ts : List Int) (st : Scan) : Prop where
  gone : ∃ gone, ts = gone ++ st.live ∧ ∀ s ∈ gone, ∃ t ∈ ts, window < t - s
  most : ∀ a, within window a ts ≤ st.best
  some : st.best = 0 ∨ ∃ a, st.best ≤ within window a ts

theorem reads_empty : Reads window [] .empty :=
  ⟨⟨[], rfl, fun _ h => nomatch h⟩, fun _ => Nat.le_refl 0, Or.inl rfl⟩

theorem within_mono {ss : List Int} (h : List.Sublist ss ts) (window a : Int) :
    within window a ss ≤ within window a ts :=
  (h.filter _).length_le

theorem within_append (a : Int) (ss : List Int) :
    within window a (ss ++ ts) = within window a ss + within window a ts := by
  simp [within]

theorem within_eq_zero {a : Int} (h : ∀ s ∈ ts, ¬ (a ≤ s ∧ s ≤ a + window)) :
    within window a ts = 0 := by
  rw [within, List.length_eq_zero_iff, List.filter_eq_nil_iff]
  intro s hs
  simpa using h s hs

theorem within_eq_length {a : Int} (h : ∀ s ∈ ts, a ≤ s ∧ s ≤ a + window) :
    within window a ts = ts.length := by
  rw [within, List.filter_eq_self.mpr]
  intro s hs
  simpa using h s hs

theorem within_le_length (window a : Int) (ts : List Int) : within window a ts ≤ ts.length :=
  List.length_filter_le _ _

theorem dropWhile_near {p : Int → Bool} {l : List Int} (hsorted : l.Pairwise (· ≤ ·))
    (hp : ∀ s t, s ≤ t → p t = true → p s = true) : ∀ s ∈ l.dropWhile p, p s = false := by
  induction l with
  | nil => simp
  | cons a l ih =>
    rw [List.pairwise_cons] at hsorted
    by_cases ha : p a = true
    · rw [List.dropWhile_cons_of_pos ha]
      exact ih hsorted.2
    · rw [List.dropWhile_cons_of_neg ha]
      intro s hs
      rcases List.mem_cons.mp hs with rfl | hs
      · exact Bool.eq_false_of_not_eq_true ha
      · by_contra hfar
        exact ha (hp a s (hsorted.1 s hs) (by simpa using hfar))

/-- After a step, what is left are the instants that are near the last one. -/
theorem step_live {st : Scan} {t : Int} (hfar : ∀ t s, far t s = true ↔ window < t - s)
    (hsorted : (ts ++ [t]).Pairwise (· ≤ ·)) (h : Reads window ts st) :
    ∃ gone, ts ++ [t] = gone ++ (step far st t).live ∧ (∀ s ∈ gone, window < t - s) ∧
      ∀ s ∈ (step far st t).live, t - window ≤ s ∧ s ≤ t := by
  obtain ⟨gone, hts, hgone⟩ := h.gone
  have hlast : ∀ s ∈ ts, s ≤ t := by
    intro s hs
    exact (List.pairwise_append.mp hsorted).2.2 s hs t (by simp)
  have hlive : (step far st t).live = (st.live ++ [t]).dropWhile (far t) := by
    rw [step]
    split <;> rfl
  have hsplit := List.takeWhile_append_dropWhile (p := far t) (l := st.live ++ [t])
  refine ⟨gone ++ (st.live ++ [t]).takeWhile (far t), ?_, ?_, ?_⟩
  · rw [hlive, List.append_assoc, hsplit, ← List.append_assoc, ← hts]
  · intro s hs
    rcases List.mem_append.mp hs with hs | hs
    · obtain ⟨x, hx, hxs⟩ := hgone s hs
      have hxt := hlast x hx
      omega
    · exact (hfar t s).mp (List.mem_takeWhile_imp hs)
  · intro s hs
    rw [hlive] at hs
    have hpart : List.Sublist (st.live ++ [t]) (ts ++ [t]) := by
      rw [hts]
      exact (List.sublist_append_right gone st.live).append_right [t]
    have hnear := dropWhile_near (hsorted.sublist hpart) (fun a b hab hb => by
      rw [hfar] at hb ⊢
      omega) s hs
    have hwindow : ¬ window < t - s := by
      rw [← hfar, hnear]
      exact Bool.false_ne_true
    have hmem := hpart.subset ((List.dropWhile_sublist (far t)).subset hs)
    refine ⟨by omega, ?_⟩
    rcases List.mem_append.mp hmem with hmem | hmem
    · exact hlast s hmem
    · rw [List.mem_singleton.mp hmem]

theorem step_best (far : Int → Int → Bool) (st : Scan) (t : Int) :
    (step far st t).best = max st.best (step far st t).live.length := by
  rw [step]
  split
  · rename_i hlt
    exact (Nat.max_eq_right (Nat.le_of_lt hlt)).symm
  · rename_i hle
    exact (Nat.max_eq_left (Nat.not_lt.mp hle)).symm

theorem step_reads {st : Scan} {t : Int} (hfar : ∀ t s, far t s = true ↔ window < t - s)
    (hsorted : (ts ++ [t]).Pairwise (· ≤ ·)) (h : Reads window ts st) :
    Reads window (ts ++ [t]) (step far st t) := by
  obtain ⟨gone, hall, haway, hnear⟩ := step_live hfar hsorted h
  have hbest := step_best far st t
  generalize step far st t = st' at *
  refine ⟨⟨gone, hall, fun s hs => ⟨t, by simp, haway s hs⟩⟩, ?_, ?_⟩
  · intro a
    by_cases ht : a ≤ t ∧ t ≤ a + window
    · -- nothing that went is in a window that holds `t`
      have hgone : within window a gone = 0 := by
        refine within_eq_zero fun s hs => ?_
        have haway := haway s hs
        omega
      have hlen := within_le_length window a st'.live
      rw [hall, within_append, hgone]
      omega
    · have hlast : within window a [t] = 0 := within_eq_zero (by simpa using ht)
      have hmost := h.most a
      rw [within_append, hlast]
      omega
  · rcases Nat.le_total st.best st'.live.length with hle | hle
    · refine Or.inr ⟨t - window, ?_⟩
      have hlive : within window (t - window) st'.live = st'.live.length :=
        within_eq_length fun s hs => by
          have hs := hnear s hs
          omega
      rw [hall, within_append, hlive]
      omega
    · rcases h.some with hzero | ⟨a, ha⟩
      · exact Or.inl (by omega)
      · refine Or.inr ⟨a, ?_⟩
        have hmono := within_mono (List.sublist_append_left ts [t]) window a
        omega

theorem scan_reads (hfar : ∀ t s, far t s = true ↔ window < t - s) (hsorted : ts.Pairwise (· ≤ ·)) :
    Reads window ts (scan far ts) := by
  induction ts using List.reverseRecOn with
  | nil => exact reads_empty
  | append_singleton ts t ih =>
    rw [scan_snoc]
    exact step_reads hfar hsorted (ih (hsorted.sublist (List.sublist_append_left ts [t])))

/-- The pass finds a run of `n` instants just where some window holds that many. -/
theorem le_best_iff (hfar : ∀ t s, far t s = true ↔ window < t - s) (hsorted : ts.Pairwise (· ≤ ·))
    (hn : 0 < n) : n ≤ (scan far ts).best ↔ ∃ a, n ≤ within window a ts := by
  have h := scan_reads hfar hsorted
  constructor
  · intro hle
    rcases h.some with hzero | ⟨a, ha⟩
    · omega
    · exact ⟨a, Nat.le_trans hle ha⟩
  · rintro ⟨a, ha⟩
    exact Nat.le_trans ha (h.most a)

theorem within_perm {ss : List Int} (h : ss.Perm ts) (a : Int) :
    within window a ss = within window a ts :=
  (h.filter _).length_eq

/-! ### The run that is found -/

/-- How many instants there are from `s` to `e`. -/
def between (s e : Int) (ts : List Int) : Nat := (ts.filter fun x => s ≤ x ∧ x ≤ e).length

theorem between_perm {ss : List Int} (h : ss.Perm ts) (s e : Int) :
    between s e ss = between s e ts :=
  (h.filter _).length_eq

theorem between_append (s e : Int) (ss : List Int) :
    between s e (ss ++ ts) = between s e ss + between s e ts := by
  simp [between]

theorem between_le_within {s e : Int} (h : e - s ≤ window) (ts : List Int) :
    between s e ts ≤ within window s ts := by
  refine (List.monotone_filter_right ts fun x hx => ?_).length_le
  rw [decide_eq_true_eq] at hx ⊢
  omega

theorem between_singleton_eq_zero {s e t : Int} (h : ¬ (s ≤ t ∧ t ≤ e)) : between s e [t] = 0 := by
  simpa [between] using h

theorem between_eq_length {s e : Int} (h : ∀ x ∈ ts, s ≤ x ∧ x ≤ e) :
    between s e ts = ts.length := by
  rw [between, List.filter_eq_self.mpr]
  intro x hx
  simpa using h x hx

/-- From `s` to `e` is the earliest of the densest runs, with `n` instants. -/
structure Densest (window : Int) (ts : List Int) (n : Nat) (s e : Int) : Prop where
  start_mem : s ∈ ts
  stop_mem : e ∈ ts
  le : s ≤ e
  near : e - s ≤ window
  count : between s e ts = n
  most : ∀ a, within window a ts ≤ n
  earliest : ∀ s' e', e' - s' ≤ window → between s' e' ts = n → e ≤ e'

theorem densest_perm {ss : List Int} {s e : Int} (hperm : ss.Perm ts)
    (h : Densest window ss n s e) : Densest window ts n s e where
  start_mem := hperm.subset h.start_mem
  stop_mem := hperm.subset h.stop_mem
  le := h.le
  near := h.near
  count := (between_perm hperm s e).symm.trans h.count
  most a := (within_perm hperm a).symm.trans_le (h.most a)
  earliest s' e' hnear hcount := h.earliest s' e' hnear ((between_perm hperm s' e').trans hcount)

/-- There is one earliest run. -/
theorem densest_unique {m : Nat} {s e s' e' : Int} (h : Densest window ts n s e)
    (h' : Densest window ts m s' e') : n = m ∧ s = s' ∧ e = e' := by
  have hnm : n ≤ m := by
    rw [← h.count]
    exact Nat.le_trans (between_le_within h.near ts) (h'.most s)
  have hmn : m ≤ n := by
    rw [← h'.count]
    exact Nat.le_trans (between_le_within h'.near ts) (h.most s')
  have hn : n = m := Nat.le_antisymm hnm hmn
  subst hn
  have he : e = e' := Int.le_antisymm (h.earliest s' e' h'.near h'.count)
    (h'.earliest s e h.near h.count)
  subst he
  -- a later start leaves the earlier one out
  have hstart : ∀ {a b : Int}, a ∈ ts → a < b → a ≤ e → between b e ts = between a e ts → False := by
    intro a b ha hab hae heq
    have hsub : List.Sublist (ts.filter fun x => b ≤ x ∧ x ≤ e) (ts.filter fun x => a ≤ x ∧ x ≤ e) := by
      refine List.monotone_filter_right ts fun x hx => ?_
      rw [decide_eq_true_eq] at hx ⊢
      omega
    have hsame := hsub.eq_of_length heq
    have hmem : a ∈ ts.filter fun x => b ≤ x ∧ x ≤ e := by
      rw [hsame]
      simp [ha, hae]
    simp only [List.mem_filter, decide_eq_true_eq] at hmem
    omega
  refine ⟨rfl, ?_, rfl⟩
  rcases Int.lt_trichotomy s s' with hlt | heq | hlt
  · exact (hstart h.start_mem hlt h.le (h'.count.trans h.count.symm)).elim
  · exact heq
  · exact (hstart h'.start_mem hlt h'.le (h.count.trans h'.count.symm)).elim

theorem headD_le {l : List Int} {t : Int} (hsorted : l.Pairwise (· ≤ ·)) (hne : l ≠ []) :
    l.headD t ∈ l ∧ ∀ x ∈ l, l.headD t ≤ x := by
  cases l with
  | nil => exact (hne rfl).elim
  | cons a l =>
    rw [List.pairwise_cons] at hsorted
    refine ⟨List.mem_cons_self, fun x hx => ?_⟩
    rcases List.mem_cons.mp hx with rfl | hx
    · exact Int.le_refl _
    · exact hsorted.1 x hx

theorem step_densest {st : Scan} {t : Int} (hfar : ∀ t s, far t s = true ↔ window < t - s)
    (hsorted : (ts ++ [t]).Pairwise (· ≤ ·)) (h : Reads window ts st)
    (hbest : st.best ≠ 0 → Densest window ts st.best st.start st.stop) :
    (step far st t).best ≠ 0 → Densest window (ts ++ [t]) (step far st t).best
      (step far st t).start (step far st t).stop := by
  obtain ⟨gone, hall, -, hnear⟩ := step_live hfar hsorted h
  have hnext := step_reads hfar hsorted h
  have hlast : ∀ x ∈ ts, x ≤ t := by
    intro x hx
    exact (List.pairwise_append.mp hsorted).2.2 x hx t (by simp)
  have houtside : ∀ s' e', ¬ (s' ≤ t ∧ t ≤ e') → between s' e' (ts ++ [t]) = between s' e' ts := by
    intro s' e' hout
    rw [between_append, between_singleton_eq_zero hout, Nat.add_zero]
  intro hpos
  rw [step] at *
  split_ifs at * with hlt
  · dsimp only at *
    generalize List.dropWhile (far t) (st.live ++ [t]) = live at *
    have hne : live ≠ [] := by
      rintro rfl
      cases hlt
    have hpart : List.Sublist live (ts ++ [t]) := by
      rw [hall]
      exact List.sublist_append_right gone live
    obtain ⟨hmem, hfirst⟩ := headD_le (t := t) (hsorted.sublist hpart) hne
    have hwindow : t - live.headD t ≤ window := by
      have := hnear _ hmem
      omega
    have hcount : between (live.headD t) t (ts ++ [t]) = live.length := by
      refine Nat.le_antisymm ?_ ?_
      · exact Nat.le_trans (between_le_within hwindow _) (hnext.most _)
      · rw [hall, between_append, between_eq_length fun x hx => ⟨hfirst x hx, (hnear x hx).2⟩]
        exact Nat.le_add_left _ _
    refine ⟨hpart.subset hmem, by simp, (hnear _ hmem).2, hwindow, hcount, hnext.most, ?_⟩
    intro s' e' hnear' hcount'
    by_contra hbefore
    rw [houtside s' e' (by omega)] at hcount'
    have hmost := Nat.le_trans (between_le_within hnear' ts) (h.most s')
    omega
  · dsimp only at *
    have hold := hbest hpos
    have hstop := hlast _ hold.stop_mem
    have hcount : between st.start st.stop (ts ++ [t]) = st.best := by
      refine Nat.le_antisymm ?_ ?_
      · exact Nat.le_trans (between_le_within hold.near _) (hnext.most _)
      · rw [between_append, hold.count]
        exact Nat.le_add_right _ _
    refine ⟨by simp [hold.start_mem], by simp [hold.stop_mem], hold.le, hold.near, hcount,
      hnext.most, ?_⟩
    intro s' e' hnear' hcount'
    by_cases ht : s' ≤ t ∧ t ≤ e'
    · omega
    · rw [houtside s' e' ht] at hcount'
      exact hold.earliest s' e' hnear' hcount'

/-- The pass finds the earliest of the densest runs. -/
theorem scan_densest (hfar : ∀ t s, far t s = true ↔ window < t - s)
    (hsorted : ts.Pairwise (· ≤ ·)) : (scan far ts).best ≠ 0 →
      Densest window ts (scan far ts).best (scan far ts).start (scan far ts).stop := by
  induction ts using List.reverseRecOn with
  | nil => exact fun h => (h rfl).elim
  | append_singleton ts t ih =>
    have hbefore := hsorted.sublist (List.sublist_append_left ts [t])
    rw [scan_snoc]
    exact step_densest hfar hsorted (scan_reads hfar hbefore) (ih hbefore)

theorem dropWhile_congr {p q : Int → Bool} {l : List Int} (h : ∀ s ∈ l, p s = q s) :
    l.dropWhile p = l.dropWhile q := by
  induction l with
  | nil => rfl
  | cons a l ih =>
    rw [List.dropWhile_cons, List.dropWhile_cons, h a List.mem_cons_self,
      ih fun s hs => h s (List.mem_cons_of_mem a hs)]

/-- Only distances between instants of the list are asked for. -/
theorem scan_congr {far' : Int → Int → Bool} (h : ∀ t ∈ ts, ∀ s ∈ ts, far t s = far' t s) :
    scan far ts = scan far' ts ∧ ∀ s ∈ (scan far ts).live, s ∈ ts := by
  induction ts using List.reverseRecOn with
  | nil => exact ⟨rfl, fun s hs => hs⟩
  | append_singleton ts t ih =>
    obtain ⟨heq, hmem⟩ := ih fun t ht s hs => h t (by simp [ht]) s (by simp [hs])
    have hin : ∀ s ∈ (scan far ts).live ++ [t], s ∈ ts ++ [t] := by
      intro s hs
      rcases List.mem_append.mp hs with hs | hs
      · simp [hmem s hs]
      · simp [List.mem_singleton.mp hs]
    have hlive : ((scan far ts).live ++ [t]).dropWhile (far t) =
        ((scan far ts).live ++ [t]).dropWhile (far' t) :=
      dropWhile_congr fun s hs => h t (by simp) s (hin s hs)
    rw [scan_snoc, scan_snoc, ← heq, step, step, hlive]
    refine ⟨rfl, fun s hs => hin s ?_⟩
    have hs : s ∈ ((scan far ts).live ++ [t]).dropWhile (far' t) := by
      split_ifs at hs <;> exact hs
    exact (List.dropWhile_sublist _).subset hs

end Cluster
