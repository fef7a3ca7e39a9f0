import Scimage.Lib.JsonText

/-! The first value of a stream: a reader that stops where the value is complete. -/
namespace Json

/-- What the characters so far come to. -/
inductive First where
  | value (v : Value)
  | broken
  | unfinished (s : Scan)

/-- The value that the next character does not belong to. -/
def Scan.ended (s : Scan) (c : Char) : Option Value :=
  match s with
  | ⟨[], .done v⟩ => some v
  | ⟨[], .number st before⟩ => if (st.next c).isNone then (number? before).map .num else none
  | _ => none

/-- The array or object that a bracket completes. -/
def Scan.closed (s : Scan) (c : Char) : Option Value :=
  match s with
  | ⟨[], .done v⟩ => if c = ']' ∨ c = '}' then some v else none
  | _ => none

/-- `Decoder.Decode`, as far as the text goes. -/
def first (s : Scan) : List Char → First
  | [] => .unfinished s
  | c :: cs =>
    match s.ended c with
    | some v => .value v
    | none =>
      match step s c with
      | none => .broken
      | some t =>
        match t.closed c with
        | some v => .value v
        | none => first t cs

/-- What is unfinished is where the scanner stands. -/
theorem scan_of_unfinished {s t : Scan} {cs : List Char} (h : first s cs = .unfinished t) :
    scan s cs = some t := by
  induction cs generalizing s with
  | nil =>
    cases h
    rfl
  | cons c cs ih =>
    rw [first] at h
    split at h
    · cases h
    · split at h
      · cases h
      · rename_i next hstep
        split at h
        · cases h
        · have hcons : scan s (c :: cs) = (step s c).bind fun next => scan next cs := by
            simp only [scan, List.foldlM_cons]
            rfl
          rw [hcons, hstep]
          exact ih h

/-! ### Where a value is complete -/

/-- The text ends where its value is complete, or in the white space after it. -/
def Completes (cs : List Char) (v : Value) : Prop := scan .start cs = some ⟨[], .done v⟩

theorem scan_done {v : Value} {cs : List Char} {t : Scan} (h : scan ⟨[], .done v⟩ cs = some t) :
    t = ⟨[], .done v⟩ := by
  induction cs with
  | nil =>
    cases h
    rfl
  | cons c cs ih =>
    rw [scan_cons, step] at h
    dsimp only at h
    by_cases hspace : isSpace c
    · rw [if_pos hspace] at h
      exact ih h
    · rw [if_neg hspace] at h
      cases h

/-- A text completes one value. -/
theorem Completes.unique {q q' rest rest' : List Char} {v v' : Value} (h : Completes q v)
    (h' : Completes q' v') (htext : q ++ rest = q' ++ rest') : v = v' := by
  have hlater : ∀ {p p' ms : List Char} {w w' : Value}, Completes p w → Completes p' w' → p' = p ++ ms →
      w = w' := by
    rintro p p' ms w w' hp hp' rfl
    rw [Completes, scan_append, hp] at hp'
    cases scan_done hp'
    rfl
  rcases List.append_eq_append_iff.mp htext with ⟨ms, hq', -⟩ | ⟨ms, hq, -⟩
  · exact hlater h h' hq'
  · exact (hlater h' h hq).symm

def Value.isNumber : Value → Bool
  | .num _ => true
  | _ => false

theorem finish_completes {s : Scan} {v : Value} (h : s.finish = some v) (hv : v.isNumber = false) :
    s = ⟨[], .done v⟩ := by
  unfold Scan.finish at h
  split at h
  · cases h
    rfl
  · obtain ⟨n, -, rfl⟩ := Option.map_eq_some_iff.mp h
    cases hv
  · cases h

theorem read_completes {cs : List Char} {v : Value} (h : read cs = some v) (hv : v.isNumber = false) :
    Completes cs v := by
  obtain ⟨s, hs, hfinish⟩ := Option.bind_eq_some_iff.mp h
  rw [Completes, hs, finish_completes hfinish hv]

theorem first_completes {s : Scan} {cs : List Char} {v : Value} (h : first s cs = .value v)
    (hv : v.isNumber = false) : ∃ q rest, cs = q ++ rest ∧ scan s q = some ⟨[], .done v⟩ := by
  induction cs generalizing s with
  | nil => cases h
  | cons c cs ih =>
    rw [first] at h
    split at h
    · rename_i w hended
      cases h
      refine ⟨[], c :: cs, rfl, ?_⟩
      unfold Scan.ended at hended
      split at hended
      · cases hended
        rfl
      · split_ifs at hended
        obtain ⟨n, -, rfl⟩ := Option.map_eq_some_iff.mp hended
        cases hv
      · cases hended
    · split at h
      · cases h
      · rename_i t hstep
        split at h
        · rename_i w hclosed
          cases h
          refine ⟨[c], cs, rfl, ?_⟩
          unfold Scan.closed at hclosed
          split at hclosed
          · split_ifs at hclosed
            cases hclosed
            rw [scan_cons, hstep]
            rfl
          · cases hclosed
        · obtain ⟨q, rest, rfl, hq⟩ := ih h
          refine ⟨c :: q, rest, rfl, ?_⟩
          rw [scan_cons, hstep]
          exact hq

/-! ### Characters that complete nothing -/

/-- The letters that a word waits for are those of `true`, `false` and `null`. -/
def Scan.Spelt (s : Scan) : Prop := ∀ rest v, s.mode = .word rest v → ∀ d ∈ rest, d.toNat < 128

theorem close_spelt (stack : List Frame) (v : Value) : (close stack v).Spelt := by
  intro rest w h
  rcases stack with _ | ⟨_ | _, _⟩ <;> cases h

theorem beginValue_spelt {stack : List Frame} {c : Char} {t : Scan} (h : beginValue stack c = some t) :
    t.Spelt := by
  intro rest w hmode
  unfold beginValue at h
  split_ifs at h
  · cases h
    cases hmode
  · cases h
    cases hmode
  · cases h
    cases hmode
  · cases h
    cases hmode
    simp
  · cases h
    cases hmode
    simp
  · cases h
    cases hmode
    simp
  · obtain ⟨st, -, rfl⟩ := Option.map_eq_some_iff.mp h
    cases hmode

theorem stepText_spelt {stack : List Frame} {role : Role} {before : Text} {c : Char} {esc : Escape} {t : Scan}
    (h : stepText stack role before c esc = some t) : t.Spelt := by
  cases esc with
  | none =>
    simp only [stepText] at h
    split_ifs at h
    · cases role with
      | value =>
        cases h
        exact close_spelt _ _
      | key ms =>
        cases h
        intro rest w hmode
        cases hmode
    · cases h
      intro rest w hmode
      cases hmode
    · cases h
      intro rest w hmode
      cases hmode
  | backslash =>
    simp only [stepText] at h
    split_ifs at h
    · cases h
      intro rest w hmode
      cases hmode
    · obtain ⟨e, -, rfl⟩ := Option.map_eq_some_iff.mp h
      intro rest w hmode
      cases hmode
  | digits ds =>
    obtain ⟨d, -, rfl⟩ := Option.map_eq_some_iff.mp h
    split
    · intro rest w hmode
      cases hmode
    · intro rest w hmode
      cases hmode

theorem stepNext_spelt {stack : List Frame} {c : Char} {m : Mode} {t : Scan} (h : stepNext stack c m = some t) :
    t.Spelt := by
  unfold stepNext at h
  split at h
  · split_ifs at h
    · cases h
      intro rest w hmode
      cases hmode
    · cases h
      exact close_spelt _ _
  · split_ifs at h
    · cases h
      intro rest w hmode
      cases hmode
    · cases h
      exact close_spelt _ _
  · cases h

theorem step_spelt {s t : Scan} {c : Char} (hs : s.Spelt) (h : step s c = some t) : t.Spelt := by
  obtain ⟨stack, mode⟩ := s
  cases mode with
  | value =>
    simp only [step] at h
    split_ifs at h
    · cases h
      exact hs
    · exact beginValue_spelt h
  | first =>
    simp only [step] at h
    split_ifs at h
    · cases h
      exact hs
    · cases h
      exact close_spelt _ _
    · exact beginValue_spelt h
  | firstKey =>
    simp only [step] at h
    split_ifs at h
    · cases h
      exact hs
    · cases h
      exact close_spelt _ _
    · cases h
      intro rest w hmode
      cases hmode
  | key before =>
    simp only [step] at h
    split_ifs at h
    · cases h
      exact hs
    · cases h
      intro rest w hmode
      cases hmode
  | colon before key =>
    simp only [step] at h
    split_ifs at h
    · cases h
      exact hs
    · cases h
      intro rest w hmode
      cases hmode
  | nextElem before =>
    simp only [step] at h
    split_ifs at h
    · cases h
      exact hs
    · exact stepNext_spelt h
  | nextField before =>
    simp only [step] at h
    split_ifs at h
    · cases h
      exact hs
    · exact stepNext_spelt h
  | text role before esc => exact stepText_spelt h
  | number st before =>
    simp only [step] at h
    split at h
    · cases h
      intro rest w hmode
      cases hmode
    · obtain ⟨n, -, hn⟩ := Option.bind_eq_some_iff.mp h
      split_ifs at hn
      · cases hn
        exact close_spelt _ _
      · exact stepNext_spelt hn
  | word rest v =>
    simp only [step] at h
    split at h
    · cases h
    · split_ifs at h
      cases h
      exact close_spelt _ _
    · rename_i d rest _
      split_ifs at h
      cases h
      intro rest' w hmode e he
      cases hmode
      exact hs _ _ rfl e (List.mem_cons_of_mem d he)
  | done v =>
    simp only [step] at h
    split_ifs at h
    cases h
    exact hs

theorem scan_spelt {s t : Scan} {cs : List Char} (hs : s.Spelt) (h : scan s cs = some t) : t.Spelt := by
  induction cs generalizing s with
  | nil =>
    cases h
    exact hs
  | cons c cs ih =>
    obtain ⟨u, hu, hrest⟩ := Option.bind_eq_some_iff.mp h
    exact ih (step_spelt hs hu) hrest

section Wide

variable {c : Char}

theorem ne_of_wide (hc : 128 ≤ c.toNat) {d : Char} (hd : d.toNat < 128) : c ≠ d := by
  rintro rfl
  omega

theorem isSpace_wide (hc : 128 ≤ c.toNat) : isSpace c = false := by
  simp [isSpace, ne_of_wide hc]

theorem next_wide (hc : 128 ≤ c.toNat) (st : Digits) : st.next c = none := by
  have hdigit : c.isDigit = false := by
    rw [Char.isDigit, Bool.and_eq_false_iff]
    right
    rw [decide_eq_false_iff_not, UInt32.le_iff_toNat_le]
    have hnine : ('9' : Char).val.toNat = 57 := rfl
    have hval : c.val.toNat = c.toNat := rfl
    omega
  cases st <;> simp [Digits.next, Digits.next.first, Digits.next.point, Digits.next.mark, hdigit, ne_of_wide hc]

theorem beginValue_wide (hc : 128 ≤ c.toNat) (stack : List Frame) : beginValue stack c = none := by
  simp [beginValue, ne_of_wide hc, next_wide hc]

theorem stepNext_wide (hc : 128 ≤ c.toNat) (stack : List Frame) (m : Mode) : stepNext stack c m = none := by
  cases m <;> simp [stepNext, ne_of_wide hc]

/-- A character outside ASCII completes no value. -/
theorem step_wide (hc : 128 ≤ c.toNat) {s : Scan} {v : Value} (hs : s.Spelt) : step s c ≠ some ⟨[], .done v⟩ := by
  obtain ⟨stack, mode⟩ := s
  have hspace := isSpace_wide hc
  intro h
  cases mode with
  | value => simp [step, hspace, beginValue_wide hc] at h
  | first => simp [step, hspace, beginValue_wide hc, ne_of_wide hc] at h
  | firstKey => simp [step, hspace, ne_of_wide hc] at h
  | key before => simp [step, hspace, ne_of_wide hc] at h
  | colon before key => simp [step, hspace, ne_of_wide hc] at h
  | nextElem before => simp [step, hspace, stepNext_wide hc] at h
  | nextField before => simp [step, hspace, stepNext_wide hc] at h
  | text role before esc =>
    cases esc with
    | none => simp [step, stepText, ne_of_wide hc] at h
    | backslash => simp [step, stepText, Short.ofLetter, ne_of_wide hc] at h
    | digits ds =>
      obtain ⟨d, -, hd⟩ := Option.map_eq_some_iff.mp h
      split at hd <;> cases hd
  | number st before => simp [step, hspace, next_wide hc, stepNext_wide hc] at h
  | word rest v =>
    rcases rest with _ | ⟨d, _ | ⟨e, rest⟩⟩
    · simp [step] at h
    · have hne := ne_of_wide hc (hs _ _ rfl d (List.mem_singleton_self d))
      simp [step, hne] at h
    · simp only [step] at h
      split_ifs at h
      cases h
  | done w => simp [step, hspace] at h

end Wide

/-- A text that completes a value does not end with such a character. -/
theorem Completes.narrow {p : List Char} {c : Char} {k : Nat} {v : Value} (hc : 128 ≤ c.toNat)
    (h : Completes (p ++ List.replicate k c) v) : k = 0 := by
  cases k with
  | zero => rfl
  | succ k =>
    rw [List.replicate_succ', ← List.append_assoc, Completes, scan_append] at h
    obtain ⟨s, hs, hlast⟩ := Option.bind_eq_some_iff.mp h
    have hspelt : s.Spelt := by
      refine scan_spelt ?_ hs
      intro rest v hmode
      cases hmode
    obtain ⟨t, ht, he⟩ := Option.bind_eq_some_iff.mp hlast
    cases he
    exact (step_wide hc hspelt ht).elim

end Json
