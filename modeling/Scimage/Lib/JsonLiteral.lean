import Scimage.Lib.JsonText

/-! String literals that denote what stands between their quotes. -/
namespace Json

/-- The literal of these characters denotes `v`. -/
def Denotes (cs v : List Char) : Prop := ∃ t, read ('"' :: cs ++ ['"']) = some (.str t) ∧ t.chars = v

theorem denotes_unique {cs v v' : List Char} (h : Denotes cs v) (h' : Denotes cs v') : v = v' := by
  obtain ⟨t, ht, rfl⟩ := h
  obtain ⟨t', ht', rfl⟩ := h'
  cases ht.symm.trans ht'
  rfl

/-- Two units may make one character, and nothing makes more than one. -/
theorem chars_length (t : Text) : t.chars.length ≤ t.length := by
  fun_induction Text.chars t with
  | case1 => exact Nat.le_refl 0
  | case2 c t ih => simpa using ih
  | case3 e t ih => simpa using ih
  | case4 n m t h ih =>
    simp only [List.length_cons]
    omega
  | case5 n m t h ih =>
    simp only [List.length_cons] at ih ⊢
    omega
  | case6 n t h ih =>
    simp only [List.length_cons]
    omega

def literalScan (before : Text) (esc : Escape) : Scan := ⟨[], .text .value before esc⟩

theorem step_literal (before : Text) (esc : Escape) (c : Char) :
    step (literalScan before esc) c = stepText [] .value before c esc := rfl

theorem hexValue_quote : hexValue '"' = none := by rfl

/-- The quote at the end ends the literal, or it is escaped and nothing does. -/
theorem scan_quote {before t : Text} {esc : Escape}
    (h : (scan (literalScan before esc) ['"']).bind Scan.finish = some (.str t)) :
    esc = .none ∧ t = before.reverse := by
  rw [scan_cons, step_literal] at h
  cases esc with
  | none =>
    cases h
    exact ⟨rfl, rfl⟩
  | backslash => cases h
  | digits ds =>
    rw [stepText, hexValue_quote] at h
    cases h

/-- A literal has no more pieces than characters, and fewer once something is escaped. -/
theorem scan_length {cs : List Char} (hq : '"' ∉ cs) {before t : Text} {esc : Escape}
    (h : (scan (literalScan before esc) (cs ++ ['"'])).bind Scan.finish = some (.str t)) :
    t.length ≤ before.length + cs.length ∧
      (esc = .none → t.length = before.length + cs.length → ∀ c ∈ cs, isPlain c = true) := by
  induction cs generalizing before esc with
  | nil =>
    obtain ⟨rfl, rfl⟩ := scan_quote h
    refine ⟨by simp, fun _ _ c hc => ?_⟩
    cases hc
  | cons c cs ih =>
    have hne : c ≠ '"' := fun he => hq (he ▸ List.mem_cons_self)
    have hrest : '"' ∉ cs := fun hm => hq (List.mem_cons_of_mem c hm)
    rw [List.cons_append, scan_cons, step_literal] at h
    cases esc with
    | none =>
      rw [stepText, if_neg hne] at h
      by_cases hback : c = '\\'
      · rw [if_pos hback] at h
        have hlen := (ih hrest h).1
        refine ⟨?_, fun _ hall => ?_⟩
        · simp only [List.length_cons]
          omega
        · simp only [List.length_cons] at hall
          omega
      · rw [if_neg hback] at h
        by_cases hplain : isPlain c = true
        · rw [dif_pos hplain] at h
          obtain ⟨hlen, hall⟩ := ih hrest h
          simp only [List.length_cons] at hlen hall ⊢
          refine ⟨by omega, fun _ heq d hd => ?_⟩
          rcases List.mem_cons.mp hd with rfl | hd
          · exact hplain
          · exact hall trivial (by omega) d hd
        · rw [dif_neg hplain] at h
          cases h
    | backslash =>
      refine ⟨?_, fun he => by cases he⟩
      rw [stepText] at h
      by_cases hu : c = 'u'
      · rw [if_pos hu] at h
        have hlen := (ih hrest h).1
        simp only [List.length_cons]
        omega
      · rw [if_neg hu] at h
        cases hletter : Short.ofLetter c with
        | none =>
          rw [hletter] at h
          cases h
        | some e =>
          rw [hletter] at h
          have hlen := (ih hrest h).1
          simp only [List.length_cons] at hlen ⊢
          omega
    | digits ds =>
      refine ⟨?_, fun he => by cases he⟩
      rw [stepText] at h
      cases hd : hexValue c with
      | none =>
        rw [hd] at h
        cases h
      | some d =>
        rw [hd, Option.map_some, Option.bind_some] at h
        split at h
        · have hlen := (ih hrest h).1
          simp only [List.length_cons] at hlen ⊢
          omega
        · have hlen := (ih hrest h).1
          simp only [List.length_cons]
          omega

theorem chars_plain (cs : List {c : Char // isPlain c = true}) :
    Text.chars (cs.map Piece.plain) = cs.map Subtype.val := by
  induction cs with
  | nil => rfl
  | cons c cs ih => rw [List.map_cons, List.map_cons, Text.chars, ih]

theorem write_plain (cs : List {c : Char // isPlain c = true}) :
    (Value.str (cs.map Piece.plain)).write = '"' :: cs.map Subtype.val ++ ['"'] := by
  have hpieces : (cs.map Piece.plain).flatMap Piece.write = cs.map Subtype.val := by
    induction cs with
    | nil => rfl
    | cons c cs ih => rw [List.map_cons, List.flatMap_cons, ih]; rfl
  rw [Value.write, Text.write, hpieces]
  rfl

/-- A literal denotes its own characters exactly when none of them is escaped or a control character. -/
theorem denotes_self_iff {cs : List Char} (hq : '"' ∉ cs) :
    Denotes cs cs ↔ ∀ c ∈ cs, isPlain c = true := by
  constructor
  · rintro ⟨t, ht, hchars⟩
    have hscan : (scan (literalScan [] .none) (cs ++ ['"'])).bind Scan.finish = some (.str t) := ht
    obtain ⟨hlen, hall⟩ := scan_length hq hscan
    have hpieces := chars_length t
    rw [hchars] at hpieces
    rw [List.length_nil] at hlen hall
    exact hall rfl (by omega)
  · intro hall
    obtain ⟨ps, rfl⟩ : ∃ ps : List {c : Char // isPlain c = true}, ps.map Subtype.val = cs :=
      ⟨cs.attachWith _ hall, List.attachWith_map_subtype_val hall⟩
    refine ⟨ps.map Piece.plain, ?_, chars_plain ps⟩
    rw [← write_plain]
    exact read_write (Nat.zero_le _)

end Json
