import Scimage.Lib.JsonMap
import Scimage.Lib.JsonText

/-! How deep what is read can be: the scanner refuses more than `maxNestingDepth`. -/
namespace Json

open Relational (Table)

/-! ### The scanner -/

/-- What is kept in a container with `n` around it. -/
def Fits (n : Nat) (v : Value) : Prop := v.depth + n ≤ maxNestingDepth

def Frame.Fits (n : Nat) : Frame → Prop
  | .elem before => ∀ v ∈ before, Json.Fits n v
  | .field before _ => ∀ m ∈ before, Json.Fits n m.2

def stackFits : List Frame → Prop
  | [] => True
  | f :: stack => stack.length < maxNestingDepth ∧ f.Fits (stack.length + 1) ∧ stackFits stack

def Mode.Fits (n : Nat) : Mode → Prop
  | .nextElem before => n < maxNestingDepth ∧ ∀ v ∈ before, Json.Fits (n + 1) v
  | .nextField before | .key before | .colon before _ | .text (.key before) _ _ =>
    n < maxNestingDepth ∧ ∀ m ∈ before, Json.Fits (n + 1) m.2
  | .firstKey => n < maxNestingDepth
  | .first => 0 < n
  | .word _ v => v.depth = 0
  | .done v => v.depth ≤ maxNestingDepth
  | .value | .text .value _ _ | .number _ _ => True

def Scan.Fits (s : Scan) : Prop :=
  s.stack.length ≤ maxNestingDepth ∧ stackFits s.stack ∧ s.mode.Fits s.stack.length

theorem depthAll_le {xs : List Value} {n : Nat} (h : ∀ x ∈ xs, x.depth ≤ n) : depthAll xs ≤ n := by
  induction xs with
  | nil => exact Nat.zero_le n
  | cons x xs ih =>
    exact Nat.max_le.mpr ⟨h x List.mem_cons_self, ih fun y hy => h y (List.mem_cons_of_mem x hy)⟩

theorem depthMembers_le {ms : List (Text × Value)} {n : Nat} (h : ∀ m ∈ ms, m.2.depth ≤ n) :
    depthMembers ms ≤ n := by
  induction ms with
  | nil => exact Nat.zero_le n
  | cons m ms ih =>
    exact Nat.max_le.mpr ⟨h m List.mem_cons_self, ih fun y hy => h y (List.mem_cons_of_mem m hy)⟩

theorem depth_lt_of_mem {xs : List Value} {x : Value} (h : x ∈ xs) : x.depth < (Value.arr xs).depth := by
  rw [Value.depth, Nat.lt_succ_iff]
  induction xs with
  | nil => cases h
  | cons y xs ih =>
    rcases List.mem_cons.mp h with rfl | h
    · exact Nat.le_max_left _ _
    · exact Nat.le_trans (ih h) (Nat.le_max_right _ _)

theorem depth_lt_of_member {ms : List (Text × Value)} {m : Text × Value} (h : m ∈ ms) :
    m.2.depth < (Value.obj ms).depth := by
  rw [Value.depth, Nat.lt_succ_iff]
  induction ms with
  | nil => cases h
  | cons y ms ih =>
    rcases List.mem_cons.mp h with rfl | h
    · exact Nat.le_max_left _ _
    · exact Nat.le_trans (ih h) (Nat.le_max_right _ _)

theorem fits_arr {n : Nat} {xs : List Value} (hn : n < maxNestingDepth)
    (h : ∀ x ∈ xs, Fits (n + 1) x) : Fits n (.arr xs) := by
  have hle := depthAll_le (n := maxNestingDepth - (n + 1)) fun x hx => by
    have := h x hx
    unfold Fits at this
    omega
  rw [Fits, Value.depth]
  omega

theorem fits_obj {n : Nat} {ms : List (Text × Value)} (hn : n < maxNestingDepth)
    (h : ∀ m ∈ ms, Fits (n + 1) m.2) : Fits n (.obj ms) := by
  have hle := depthMembers_le (n := maxNestingDepth - (n + 1)) fun m hm => by
    have := h m hm
    unfold Fits at this
    omega
  rw [Fits, Value.depth]
  omega

theorem close_fits {stack : List Frame} {v : Value} (hs : stackFits stack)
    (hv : Fits stack.length v) : (close stack v).Fits := by
  cases stack with
  | nil => exact ⟨Nat.zero_le _, trivial, hv⟩
  | cons f stack =>
    obtain ⟨hlen, hf, hrest⟩ := hs
    cases f with
    | elem before =>
      refine ⟨Nat.le_of_lt hlen, hrest, hlen, ?_⟩
      intro w hw
      rcases List.mem_cons.mp hw with rfl | hw
      · exact hv
      · exact hf w hw
    | field before key =>
      refine ⟨Nat.le_of_lt hlen, hrest, hlen, ?_⟩
      intro m hm
      rcases List.mem_cons.mp hm with rfl | hm
      · exact hv
      · exact hf m hm

theorem flat_fits {n : Nat} {v : Value} (hn : n ≤ maxNestingDepth) (hv : v.depth = 0) : Fits n v := by
  rw [Fits, hv]
  omega

theorem beginValue_fits {stack : List Frame} {c : Char} {t : Scan} (hlen : stack.length ≤ maxNestingDepth)
    (hs : stackFits stack) (h : beginValue stack c = some t) : t.Fits := by
  unfold beginValue at h
  split_ifs at h with h1 h2 h3 h4 h5 h6 h7 h8
  · cases h
    exact ⟨hlen, hs, trivial⟩
  · cases h
    exact ⟨h3, ⟨h3, by simp [Frame.Fits], hs⟩, Nat.succ_pos _⟩
  · cases h
    exact ⟨hlen, hs, h5⟩
  · cases h
    exact ⟨hlen, hs, rfl⟩
  · cases h
    exact ⟨hlen, hs, rfl⟩
  · cases h
    exact ⟨hlen, hs, rfl⟩
  · obtain ⟨st, -, rfl⟩ := Option.map_eq_some_iff.mp h
    exact ⟨hlen, hs, trivial⟩

theorem stepText_fits {stack : List Frame} {role : Role} {before : Text} {c : Char} {esc : Escape}
    {t : Scan} (hs : (Scan.mk stack (.text role before esc)).Fits)
    (h : stepText stack role before c esc = some t) : t.Fits := by
  obtain ⟨hlen, hstack, hmode⟩ := hs
  have hsame : ∀ before' esc', (Scan.mk stack (.text role before' esc')).Fits := by
    intro before' esc'
    refine ⟨hlen, hstack, ?_⟩
    cases role <;> exact hmode
  cases esc with
  | none =>
    simp only [stepText] at h
    split_ifs at h
    · cases role with
      | value =>
        cases h
        exact close_fits hstack (flat_fits hlen rfl)
      | key ms =>
        cases h
        exact ⟨hlen, hstack, hmode⟩
    · cases h
      exact hsame _ _
    · cases h
      exact hsame _ _
  | backslash =>
    simp only [stepText] at h
    split_ifs at h
    · cases h
      exact hsame _ _
    · obtain ⟨e, -, rfl⟩ := Option.map_eq_some_iff.mp h
      exact hsame _ _
  | digits ds =>
    obtain ⟨d, -, rfl⟩ := Option.map_eq_some_iff.mp h
    split <;> exact hsame _ _

theorem stepNext_fits {s t : Scan} {c : Char} (hs : s.Fits)
    (h : stepNext s.stack c s.mode = some t) : t.Fits := by
  obtain ⟨stack, mode⟩ := s
  obtain ⟨hlen, hstack, hmode⟩ := hs
  cases mode with
  | nextElem before =>
    obtain ⟨hn, hbefore⟩ := hmode
    simp only [stepNext] at h
    split_ifs at h
    · cases h
      exact ⟨hn, ⟨hn, hbefore, hstack⟩, trivial⟩
    · cases h
      refine close_fits hstack (fits_arr hn ?_)
      simpa using hbefore
  | nextField before =>
    obtain ⟨hn, hbefore⟩ := hmode
    simp only [stepNext] at h
    split_ifs at h
    · cases h
      exact ⟨hlen, hstack, hn, hbefore⟩
    · cases h
      refine close_fits hstack (fits_obj hn ?_)
      intro m hm
      exact hbefore m (List.mem_reverse.mp hm)
  | _ => cases h

theorem step_fits {s t : Scan} {c : Char} (hs : s.Fits) (h : step s c = some t) : t.Fits := by
  obtain ⟨stack, mode⟩ := s
  have hall := hs
  obtain ⟨hlen, hstack, hmode⟩ := hs
  cases mode with
  | value =>
    simp only [step] at h
    split_ifs at h
    · cases h
      exact hall
    · exact beginValue_fits hlen hstack h
  | first =>
    simp only [step] at h
    split_ifs at h
    · cases h
      exact hall
    · cases h
      cases stack with
      | nil => cases hmode
      | cons f stack => exact close_fits hstack.2.2 (fits_arr hstack.1 (by simp))
    · exact beginValue_fits hlen hstack h
  | firstKey =>
    simp only [step] at h
    split_ifs at h
    · cases h
      exact hall
    · cases h
      exact close_fits hstack (fits_obj hmode (by simp))
    · cases h
      exact ⟨hlen, hstack, hmode, by simp⟩
  | key before =>
    simp only [step] at h
    split_ifs at h
    · cases h
      exact hall
    · cases h
      exact ⟨hlen, hstack, hmode⟩
  | colon before key =>
    simp only [step] at h
    split_ifs at h
    · cases h
      exact hall
    · cases h
      exact ⟨hmode.1, ⟨hmode.1, hmode.2, hstack⟩, trivial⟩
  | nextElem before =>
    simp only [step] at h
    split_ifs at h
    · cases h
      exact hall
    · exact stepNext_fits hall h
  | nextField before =>
    simp only [step] at h
    split_ifs at h
    · cases h
      exact hall
    · exact stepNext_fits hall h
  | text role before esc => exact stepText_fits hall h
  | number st before =>
    simp only [step] at h
    split at h
    · cases h
      exact hall
    · obtain ⟨n, -, h⟩ := Option.bind_eq_some_iff.mp h
      have hclose := close_fits hstack (flat_fits (v := .num n) hlen rfl)
      split_ifs at h
      · cases h
        exact hclose
      · exact stepNext_fits hclose h
  | word rest v =>
    simp only [step] at h
    split at h
    · cases h
    · split_ifs at h
      cases h
      exact close_fits hstack (flat_fits hlen hmode)
    · split_ifs at h
      cases h
      exact ⟨hlen, hstack, hmode⟩
  | done v =>
    simp only [step] at h
    split_ifs at h
    cases h
    exact hall

theorem scan_fits {s t : Scan} {cs : List Char} (hs : s.Fits) (h : scan s cs = some t) : t.Fits := by
  induction cs generalizing s with
  | nil =>
    cases h
    exact hs
  | cons c cs ih =>
    obtain ⟨mid, hmid, hrest⟩ := Option.bind_eq_some_iff.mp h
    exact ih (step_fits hs hmid) hrest

/-- What is read is nested no deeper than the scanner goes. -/
theorem depth_of_read {cs : List Char} {v : Value} (h : read cs = some v) :
    v.depth ≤ maxNestingDepth := by
  obtain ⟨s, hs, hfinish⟩ := Option.bind_eq_some_iff.mp h
  have hstart : Scan.start.Fits := ⟨Nat.zero_le _, trivial, trivial⟩
  obtain ⟨-, -, hmode⟩ := scan_fits hstart hs
  unfold Scan.finish at hfinish
  split at hfinish
  · cases hfinish
    exact hmode
  · obtain ⟨n, -, rfl⟩ := Option.map_eq_some_iff.mp hfinish
    exact Nat.zero_le _
  · cases hfinish

/-! ### Respelling and writing -/

mutual

theorem depth_escape (v : Value) : v.escape.depth = v.depth := by
  match v with
  | .arr xs => rw [Value.escape, Value.depth, Value.depth, depthAll_escape xs]
  | .obj ms => rw [Value.escape, Value.depth, Value.depth, depthMembers_escape ms]
  | .null | .bool _ | .num _ | .str _ => rfl

theorem depthAll_escape (xs : List Value) : depthAll (escapeAll xs) = depthAll xs := by
  match xs with
  | [] => rfl
  | x :: xs => rw [escapeAll, depthAll, depthAll, depth_escape x, depthAll_escape xs]

theorem depthMembers_escape (ms : List (Text × Value)) :
    depthMembers (escapeMembers ms) = depthMembers ms := by
  match ms with
  | [] => rfl
  | (k, x) :: ms => rw [escapeMembers, depthMembers, depthMembers, depth_escape x, depthMembers_escape ms]

end

/-- The marshalled map is read back. -/
theorem read_json {m : Map} (h : ∀ e ∈ m.rows, e.2.depth < maxNestingDepth) :
    ∃ ms n, read m.json.write = some (.obj ms) ∧ Map.of ms = n ∧
      n.rows.Perm (m.rows.map fun e => (e.1, e.2.escape)) := by
  have hdepth : m.json.depth ≤ maxNestingDepth := by
    have hmembers := depthMembers_le (n := maxNestingDepth - 1)
      fun e (he : e ∈ (m.range fun _ => 0).map fun e => (quote e.1, e.2.escape)) => by
        obtain ⟨a, ha, rfl⟩ := List.mem_map.mp he
        have hrow := h a (mem_range.mp ha)
        rw [depth_escape]
        omega
    have hmax : 0 < maxNestingDepth := by decide
    rw [Map.json, Value.depth]
    omega
  obtain ⟨n, hread, hperm⟩ := readMap_json m
  exact ⟨_, n, read_write hdepth, Option.some.inj hread, hperm⟩

end Json
