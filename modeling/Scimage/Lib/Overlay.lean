import Mathlib.Data.List.Induction
import Mathlib.Data.List.Perm.Basic

/-! Loops over entries that are refused or write constants into cells, and what the order of the
entries does to them. -/
namespace Overlay

variable {α κ V ε : Type}

/-! ### Runs -/

def write (w : κ → Option V) (v : κ → V) : κ → V := fun k => (w k).getD (v k)

/-- One entry; the first error stays. -/
def enter (r : Except ε (κ → Option V)) : Except ε (κ → V) → Except ε (κ → V)
  | .error e => .error e
  | .ok v => r.map fun w => write w v

variable (read : α → Except ε (κ → Option V))

def run (xs : List α) (o : Except ε (κ → V)) : Except ε (κ → V) :=
  xs.foldl (fun o x => enter (read x) o) o

/-- What the cells hold after the entries that are not refused. -/
def values (xs : List α) (v : κ → V) : κ → V :=
  xs.foldl (fun v x => match read x with
    | .ok w => write w v
    | .error _ => v) v

/-! ### Entries -/

/-- No entry is refused. -/
def Clean (xs : List α) : Prop := ∀ x ∈ xs, ∃ w, read x = .ok w

/-- The entries that are refused are all refused alike. -/
def Alike (xs : List α) : Prop :=
  ∀ x ∈ xs, ∀ y ∈ xs, ∀ e f, read x = .error e → read y = .error f → e = f

/-- No entry writes a cell. -/
def Idle (k : κ) (xs : List α) : Prop := ∀ x ∈ xs, ∀ w, read x = .ok w → w k = none

/-- The entries that write a cell all write the same. -/
def Agree (k : κ) (xs : List α) : Prop :=
  ∀ x ∈ xs, ∀ y ∈ xs, ∀ w u a b, read x = .ok w → read y = .ok u → w k = some a → u k = some b → a = b

/-- Of bags of entries that are gone through one after the other: the first one with a refused
entry refuses alike, and where there is none, the last one to write a cell agrees on it. -/
def Settled : List (List α) → Prop
  | [] => True
  | b :: bs => Alike read b ∧ (Clean read b →
      Settled bs ∧ (Clean read bs.flatten → ∀ k, Idle read k bs.flatten → Agree read k b))

variable {read} {xs ys b : List α} {bs cs : List (List α)} {v : κ → V} {k : κ}

theorem run_append (xs ys : List α) (o : Except ε (κ → V)) :
    run read (xs ++ ys) o = run read ys (run read xs o) := List.foldl_append

theorem run_error (xs : List α) (e : ε) : run read xs (.error e) = .error e := by
  induction xs with
  | nil => rfl
  | cons x xs ih => exact ih

theorem run_next {x : α} {w : κ → Option V} (h : read x = .ok w) (v : κ → V) :
    run read (x :: xs) (.ok v) = run read xs (.ok (write w v)) := by
  have henter : enter (read x) (.ok v) = .ok (write w v) := by rw [h]; rfl
  rw [run, List.foldl_cons, henter]
  rfl

theorem run_clean (h : Clean read xs) (v : κ → V) : run read xs (.ok v) = .ok (values read xs v) := by
  induction xs generalizing v with
  | nil => rfl
  | cons x xs ih =>
    obtain ⟨w, hw⟩ := h x List.mem_cons_self
    have hrest := ih (fun y hy => h y (List.mem_cons_of_mem x hy)) (write w v)
    have hvalues : values read (x :: xs) v = values read xs (write w v) := by
      rw [values, List.foldl_cons, hw]
      rfl
    rw [hvalues, ← hrest, run_next hw]

theorem run_first {x : α} {e : ε} (h : read x = .error e) (o : κ → V) :
    run read (x :: xs) (.ok o) = .error e := by
  have henter : enter (read x) (.ok o) = .error e := by rw [h]; rfl
  rw [run, List.foldl_cons, henter]
  exact run_error xs e

/-- Which entry is refused first has nothing to do with the cells. -/
theorem run_refused (h : ¬ Clean read xs) :
    ∃ x ∈ xs, ∃ e, read x = .error e ∧ ∀ v : κ → V, run read xs (.ok v) = .error e := by
  induction xs with
  | nil => exact (h fun x hx => nomatch hx).elim
  | cons x xs ih =>
    cases hx : read x with
    | error e =>
      exact ⟨x, List.mem_cons_self, e, hx, run_first hx⟩
    | ok w =>
      have hrest : ¬ Clean read xs := by
        intro hclean
        apply h
        intro y hy
        rcases List.mem_cons.mp hy with rfl | hy
        · exact ⟨w, hx⟩
        · exact hclean y hy
      obtain ⟨y, hy, e, he, hrun⟩ := ih hrest
      refine ⟨y, List.mem_cons_of_mem x hy, e, he, ?_⟩
      intro v
      rw [run_next hx]
      exact hrun (write w v)

/-! ### Cells -/

theorem values_idle (h : Idle read k xs) (v : κ → V) : values read xs v k = v k := by
  induction xs generalizing v with
  | nil => rfl
  | cons x xs ih =>
    have hrest := ih fun y hy => h y (List.mem_cons_of_mem x hy)
    rw [values, List.foldl_cons]
    refine (hrest _).trans ?_
    cases hx : read x with
    | error e => rfl
    | ok w =>
      dsimp only
      rw [write, h x List.mem_cons_self w hx]
      rfl

theorem values_last {x : α} {w : κ → Option V} {a : V} (hx : read x = .ok w) (hw : w k = some a)
    (xs : List α) (v : κ → V) : values read (xs ++ [x]) v k = a := by
  rw [values, List.foldl_append, List.foldl_cons, List.foldl_nil, hx]
  dsimp only
  rw [write, hw]
  rfl

/-- Where a cell is written, what it held does not matter. -/
theorem values_written (h : ¬ Idle read k xs) :
    ∃ x ∈ xs, ∃ w a, read x = .ok w ∧ w k = some a ∧ ∀ v : κ → V, values read xs v k = a := by
  induction xs using List.reverseRecOn with
  | nil => exact (h fun x hx => nomatch hx).elim
  | append_singleton xs x ih =>
    by_cases hlast : Idle read k [x]
    · have hfirst : ¬ Idle read k xs := by
        intro hidle
        apply h
        intro y hy
        rcases List.mem_append.mp hy with hy | hy
        · exact hidle y hy
        · exact hlast y hy
      obtain ⟨y, hy, w, a, hyw, hw, hvalues⟩ := ih hfirst
      refine ⟨y, List.mem_append_left _ hy, w, a, hyw, hw, ?_⟩
      intro v
      have hsplit : values read (xs ++ [x]) v = values read [x] (values read xs v) :=
        List.foldl_append
      rw [hsplit, values_idle hlast, hvalues]
    · simp only [Idle, List.mem_singleton, forall_eq, not_forall] at hlast
      obtain ⟨w, hx, hw⟩ := hlast
      obtain ⟨a, ha⟩ := Option.ne_none_iff_exists'.mp hw
      exact ⟨x, by simp, w, a, hx, ha, fun v => values_last hx ha xs v⟩

theorem values_perm (hagree : Agree read k xs) (hp : ys.Perm xs) (v : κ → V) :
    values read ys v k = values read xs v k := by
  by_cases hidle : Idle read k xs
  · have hidle' : Idle read k ys := fun y hy => hidle y (hp.mem_iff.mp hy)
    rw [values_idle hidle, values_idle hidle']
  · have hidle' : ¬ Idle read k ys := fun h => hidle fun x hx => h x (hp.mem_iff.mpr hx)
    obtain ⟨x, hx, w, a, hw, ha, hvalues⟩ := values_written hidle
    obtain ⟨y, hy, u, b, hu, hb, hvalues'⟩ := values_written hidle'
    rw [hvalues, hvalues']
    exact hagree y (hp.mem_iff.mp hy) x hx u w b a hu hw hb ha

theorem Clean.perm (h : Clean read xs) (hp : ys.Perm xs) : Clean read ys :=
  fun y hy => h y (hp.mem_iff.mp hy)

/-! ### Orders -/

/-- Two runs from different cells go on alike when what they differ in is written again. -/
theorem run_congr {v u : κ → V}
    (h : Clean read xs → ∀ k, Idle read k xs → v k = u k) :
    run read xs (.ok v) = run read xs (.ok u) := by
  by_cases hclean : Clean read xs
  · rw [run_clean hclean, run_clean hclean]
    congr 1
    funext k
    by_cases hidle : Idle read k xs
    · rw [values_idle hidle, values_idle hidle]
      exact h hclean k hidle
    · obtain ⟨x, -, w, a, -, -, hvalues⟩ := values_written hidle
      rw [hvalues, hvalues]
  · obtain ⟨x, -, e, -, hrun⟩ := run_refused hclean
    rw [hrun, hrun]

theorem run_settled (h : Settled read bs) (hp : List.Forall₂ List.Perm cs bs) (v : κ → V) :
    run read cs.flatten (.ok v) = run read bs.flatten (.ok v) := by
  induction hp generalizing v with
  | nil => rfl
  | @cons c b cs bs hcb _ ih =>
    obtain ⟨halike, hrest⟩ := h
    rw [List.flatten_cons, List.flatten_cons, run_append, run_append]
    by_cases hclean : Clean read b
    · obtain ⟨hsettled, hagree⟩ := hrest hclean
      rw [run_clean hclean, run_clean (hclean.perm hcb), ih hsettled]
      apply run_congr
      intro hafter k hidle
      exact values_perm (hagree hafter k hidle) hcb v
    · have hclean' : ¬ Clean read c := fun hc => hclean (hc.perm hcb.symm)
      obtain ⟨x, hx, e, he, hrun⟩ := run_refused (V := V) hclean
      obtain ⟨y, hy, f, hf, hrun'⟩ := run_refused (V := V) hclean'
      rw [hrun, hrun', run_error, run_error, halike y (hcb.mem_iff.mp hy) x hx f e hf he]

/-- An entry may come first, and it may come last. -/
theorem exists_first {x : α} (h : x ∈ b) : ∃ c, (x :: c).Perm b := by
  obtain ⟨s, t, rfl⟩ := List.append_of_mem h
  exact ⟨s ++ t, List.perm_middle.symm⟩

theorem exists_last {x : α} (h : x ∈ b) : ∃ c, (c ++ [x]).Perm b := by
  obtain ⟨c, hc⟩ := exists_first h
  exact ⟨c, List.perm_append_singleton x c |>.trans hc⟩

theorem forall₂_perm_refl (bs : List (List α)) : List.Forall₂ List.Perm bs bs :=
  List.forall₂_same.mpr fun b _ => List.Perm.refl b

/-- The order shows nowhere exactly when the bags are settled. -/
theorem settled_iff (v : κ → V) : (∀ cs, List.Forall₂ List.Perm cs bs →
    run read cs.flatten (.ok v) = run read bs.flatten (.ok v)) ↔ Settled read bs := by
  refine ⟨?_, fun h cs hp => run_settled h hp v⟩
  induction bs generalizing v with
  | nil => exact fun _ => trivial
  | cons b bs ih =>
    intro h
    refine ⟨?_, ?_⟩
    · intro x hx y hy e f he hf
      obtain ⟨c, hc⟩ := exists_first hx
      obtain ⟨d, hd⟩ := exists_first hy
      have hx' := h _ (.cons hc (forall₂_perm_refl bs))
      have hy' := h _ (.cons hd (forall₂_perm_refl bs))
      rw [List.flatten_cons, List.cons_append, run_first he] at hx'
      rw [List.flatten_cons, List.cons_append, run_first hf] at hy'
      exact Except.error.inj (hx'.trans hy'.symm)
    · intro hclean
      refine ⟨ih (values read b v) ?_, ?_⟩
      · intro cs hcs
        have hsame := h _ (.cons (List.Perm.refl b) hcs)
        rwa [List.flatten_cons, List.flatten_cons, run_append, run_append, run_clean hclean] at hsame
      · intro hafter k hidle x hx y hy w u a c hw hu ha hc
        have hends : ∀ z ∈ b, ∀ w a, read z = .ok w → w k = some a →
            values read (b ++ bs.flatten) v k = a := by
          intro z hz w a hw ha
          obtain ⟨d, hd⟩ := exists_last hz
          have hsame := h _ (.cons hd (forall₂_perm_refl bs))
          have hall : Clean read (b ++ bs.flatten) := by
            intro y hy
            exact (List.mem_append.mp hy).elim (hclean y) (hafter y)
          have hall' : Clean read (d ++ [z] ++ bs.flatten) := hall.perm (hd.append_right _)
          rw [List.flatten_cons, List.flatten_cons, run_clean hall, run_clean hall'] at hsame
          have hk := congrFun (Except.ok.inj hsame) k
          have hsplit : values read (d ++ [z] ++ bs.flatten) v =
              values read bs.flatten (values read (d ++ [z]) v) := List.foldl_append
          rw [← hk, hsplit, values_idle hidle, values_last hw ha]
        exact (hends x hx w a hw ha).symm.trans (hends y hy u c hu hc)

theorem settled_single (h : Clean read b) : Settled read [b] ↔ ∀ k, Agree read k b := by
  constructor
  · intro hb k
    exact ((hb.2 h).2 (fun x hx => nomatch hx)) k fun x hx => nomatch hx
  · intro hb
    refine ⟨?_, fun _ => ⟨trivial, fun _ k _ => hb k⟩⟩
    intro x hx y _ e f he _
    obtain ⟨w, hw⟩ := h x hx
    rw [hw] at he
    cases he

theorem forall₂_single (h : List.Forall₂ List.Perm cs [b]) : ∃ c, cs = [c] ∧ c.Perm b := by
  cases h with
  | @cons c _ cs _ hc hcs =>
    cases hcs
    exact ⟨c, rfl, hc⟩

/-! ### Judged orders -/

/-- What a run comes to when its cells are tested at the end. -/
noncomputable def judge (ok : (κ → V) → Prop) (t : ε) : Except ε (κ → V) → Except ε (κ → V)
  | .error e => .error e
  | .ok v => open Classical in if ok v then .ok v else .error t

variable {ok : (κ → V) → Prop} {t : ε}

theorem judge_ok {o : Except ε (κ → V)} (h : judge ok t o = .ok v) : o = .ok v ∧ ok v := by
  cases o with
  | error e => cases h
  | ok u =>
    rw [judge] at h
    split_ifs at h with hok
    cases h
    exact ⟨rfl, hok⟩

/-- In no order do the cells pass the test. -/
def Hopeless (read : α → Except ε (κ → Option V)) (ok : (κ → V) → Prop) (bs : List (List α))
    (v : κ → V) : Prop :=
  Clean read bs.flatten ∧ ∀ cs, List.Forall₂ List.Perm cs bs → ¬ ok (values read cs.flatten v)

theorem flatten_perm (h : List.Forall₂ List.Perm cs bs) : cs.flatten.Perm bs.flatten := by
  induction h with
  | nil => exact .refl _
  | cons hb _ ih => exact hb.append ih

/-- The order shows nowhere in what is judged exactly when the bags are settled, or no order is any
good. -/
theorem judged_iff (v : κ → V) : (∀ cs, List.Forall₂ List.Perm cs bs →
    judge ok t (run read cs.flatten (.ok v)) = judge ok t (run read bs.flatten (.ok v))) ↔
      Settled read bs ∨ Hopeless read ok bs v := by
  constructor
  · intro h
    by_cases hclean : Clean read bs.flatten
    · by_cases hnone : ∀ cs, List.Forall₂ List.Perm cs bs → ¬ ok (values read cs.flatten v)
      · exact Or.inr ⟨hclean, hnone⟩
      · left
        simp only [not_forall, not_not] at hnone
        obtain ⟨cs, hcs, hok⟩ := hnone
        have hgood : judge ok t (run read cs.flatten (.ok v)) = .ok (values read cs.flatten v) := by
          rw [run_clean (hclean.perm (flatten_perm hcs)), judge, if_pos hok]
        rw [← settled_iff v]
        intro ds hds
        have hbase := judge_ok ((h cs hcs).symm.trans hgood)
        have hother := judge_ok ((h ds hds).trans ((h cs hcs).symm.trans hgood))
        exact hother.1.trans hbase.1.symm
    · left
      rw [← settled_iff v]
      intro ds hds
      have hunclean : ¬ Clean read ds.flatten :=
        fun hd => hclean (hd.perm (flatten_perm hds).symm)
      obtain ⟨x, -, e, -, hrun⟩ := run_refused (V := V) hclean
      obtain ⟨y, -, f, -, hrun'⟩ := run_refused (V := V) hunclean
      have hjudged := h ds hds
      rwa [hrun, hrun'] at hjudged ⊢
  · rintro (h | ⟨hclean, hnone⟩) cs hcs
    · rw [run_settled h hcs]
    · rw [run_clean hclean, run_clean (hclean.perm (flatten_perm hcs)), judge, judge,
        if_neg (hnone cs hcs), if_neg (hnone bs (forall₂_perm_refl bs))]

end Overlay
