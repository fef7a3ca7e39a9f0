import Mathlib.Data.List.TakeDrop
import Scimage.Scim.Auth

/-! The narrative as HTML: escaped, then with its bold labels marked up. -/
namespace Scimage.Console

open Webhook (bytes)
open Scim (Bytes)

def star : UInt8 := 42

def newline : UInt8 := 10

def lessThan : UInt8 := 60

/-- `template.HTMLEscapeString`, byte by byte. -/
def escapeByte (b : UInt8) : Bytes :=
  if b = 0 then [0xEF, 0xBF, 0xBD]
  else if b = 34 then bytes "&#34;"
  else if b = 39 then bytes "&#39;"
  else if b = 38 then bytes "&amp;"
  else if b = 60 then bytes "&lt;"
  else if b = 62 then bytes "&gt;"
  else [b]

def htmlEscape (s : Bytes) : Bytes := s.flatMap escapeByte

/-! ### The labels -/

/-- The text up to the first `**`, when it comes before the end of the line. -/
def upToStars : Bytes → Option Bytes
  | [] => none
  | b :: rest =>
    if b = star ∧ rest.head? = some star then some []
    else if b = newline then none
    else (upToStars rest).map fun label => b :: label

/-- What `boldRE` captures where a text starts with a match: one character at least, and as few as
may be. A star or the end of a line is never a part of a longer character. -/
def labelAt : Bytes → Option Bytes
  | a :: b :: c :: rest =>
    if a = star ∧ b = star ∧ c ≠ newline then (upToStars rest).map fun label => c :: label else none
  | _ => none

def strongStart : Bytes := bytes "<strong>"

def strongEnd : Bytes := bytes "</strong>"

/-- `ReplaceAllString`, with `skip` bytes of the last match still to go. -/
def replaceBold (skip : Nat) : Bytes → Bytes
  | [] => []
  | b :: rest =>
    match skip with
    | skip + 1 => replaceBold skip rest
    | 0 =>
      match labelAt (b :: rest) with
      | some label => strongStart ++ label ++ strongEnd ++ replaceBold (label.length + 3) rest
      | none => b :: replaceBold 0 rest

def renderNarrative (s : Bytes) : Bytes := replaceBold 0 (htmlEscape s)

/-! ### Matches -/

variable {s t label : Bytes} {b : UInt8}

/-- A label is followed by the stars that end it. -/
theorem upToStars_eq (h : upToStars s = some label) :
    (∃ rest, s = label ++ star :: star :: rest) ∧ newline ∉ label := by
  induction s generalizing label with
  | nil => cases h
  | cons b rest ih =>
    rw [upToStars] at h
    split_ifs at h with hstars hline
    · cases h
      obtain ⟨rfl, hrest⟩ := hstars
      obtain ⟨rest, rfl⟩ := List.head?_eq_some_iff.mp hrest
      exact ⟨⟨rest, rfl⟩, List.not_mem_nil⟩
    · obtain ⟨label, hlabel, rfl⟩ := Option.map_eq_some_iff.mp h
      obtain ⟨⟨tail, rfl⟩, hnone⟩ := ih hlabel
      refine ⟨⟨tail, rfl⟩, ?_⟩
      rw [List.mem_cons, not_or]
      exact ⟨fun heq => hline heq.symm, hnone⟩

theorem labelAt_eq (h : labelAt s = some label) :
    (∃ rest, s = star :: star :: label ++ star :: star :: rest) ∧ newline ∉ label := by
  unfold labelAt at h
  split at h
  · split_ifs at h with hopen
    obtain ⟨rfl, rfl, hline⟩ := hopen
    obtain ⟨label, hlabel, rfl⟩ := Option.map_eq_some_iff.mp h
    obtain ⟨⟨rest, rfl⟩, hnone⟩ := upToStars_eq hlabel
    refine ⟨⟨rest, rfl⟩, ?_⟩
    rw [List.mem_cons, not_or]
    exact ⟨fun heq => hline heq.symm, hnone⟩
  · cases h

theorem replaceBold_skip (n : Nat) : ∀ s : Bytes, replaceBold n s = replaceBold 0 (s.drop n) := by
  induction n with
  | zero =>
    intro s
    rfl
  | succ n ih =>
    intro s
    cases s with
    | nil => rfl
    | cons b rest => exact ih rest

/-- A match is replaced as a whole, and what follows is searched on its own. -/
theorem replaceBold_match {rest : Bytes} (h : labelAt s = some label)
    (hs : s = star :: star :: label ++ star :: star :: rest) :
    replaceBold 0 s = strongStart ++ label ++ strongEnd ++ replaceBold 0 rest := by
  subst hs
  have hdrop : (star :: label ++ star :: star :: rest).drop (label.length + 3) = rest := by
    have hlen : label.length + 3 = (star :: label ++ [star, star]).length := by
      simp
    have hsplit : star :: label ++ star :: star :: rest = (star :: label ++ [star, star]) ++ rest := by
      simp
    rw [hlen, hsplit, List.drop_left]
  rw [List.cons_append, replaceBold, ← List.cons_append, h]
  dsimp only
  rw [replaceBold_skip, hdrop]

theorem replaceBold_text (h : labelAt (b :: s) = none) :
    replaceBold 0 (b :: s) = b :: replaceBold 0 s := by
  rw [replaceBold, h]

/-- A text is read match by match and, between them, byte by byte. -/
theorem replaceBold_induct {P : Bytes → Prop} (hnil : P [])
    (htext : ∀ b s, labelAt (b :: s) = none → P s → P (b :: s))
    (hmatch : ∀ label rest, labelAt (star :: star :: label ++ star :: star :: rest) = some label →
      newline ∉ label → P rest → P (star :: star :: label ++ star :: star :: rest))
    (s : Bytes) : P s := by
  induction hn : s.length using Nat.strongRecOn generalizing s with
  | ind n ih =>
    cases s with
    | nil => exact hnil
    | cons b rest =>
      cases hlabel : labelAt (b :: rest) with
      | none =>
        refine htext b rest hlabel (ih rest.length ?_ rest rfl)
        rw [← hn, List.length_cons]
        omega
      | some label =>
        obtain ⟨⟨tail, htail⟩, hline⟩ := labelAt_eq hlabel
        rw [htail] at hlabel hn ⊢
        refine hmatch label tail hlabel hline (ih tail.length ?_ tail rfl)
        rw [← hn]
        simp
        omega

/-! ### Markup -/

/-- Text in which every `<` begins a tag, the tags open and close in turn and no run of them spans
lines. `inside` is true within a run. -/
inductive Markup : Bool → Bytes → Prop where
  | nil : Markup false []
  | text {inside : Bool} {b : UInt8} {s : Bytes} : b ≠ lessThan → (inside = true → b ≠ newline) →
    Markup inside s → Markup inside (b :: s)
  | start {s : Bytes} : Markup true s → Markup false (strongStart ++ s)
  | stop {s : Bytes} : Markup false s → Markup true (strongEnd ++ s)

/-- Replaces each tag by `**`, with `skip` bytes of the last tag still to go. -/
def untag (skip : Nat) : Bytes → Bytes
  | [] => []
  | b :: rest =>
    match skip with
    | skip + 1 => untag skip rest
    | 0 =>
      if strongStart <+: b :: rest then star :: star :: untag 7 rest
      else if strongEnd <+: b :: rest then star :: star :: untag 8 rest
      else b :: untag 0 rest

theorem strongStart_eq : strongStart = lessThan :: [115, 116, 114, 111, 110, 103, 62] := by rfl

theorem strongEnd_eq : strongEnd = lessThan :: [47, 115, 116, 114, 111, 110, 103, 62] := by rfl

theorem untag_text (h : b ≠ lessThan) (s : Bytes) : untag 0 (b :: s) = b :: untag 0 s := by
  have hstart : ¬ strongStart <+: b :: s := by
    intro hprefix
    rw [strongStart_eq, List.cons_prefix_cons] at hprefix
    exact h hprefix.1.symm
  have hend : ¬ strongEnd <+: b :: s := by
    intro hprefix
    rw [strongEnd_eq, List.cons_prefix_cons] at hprefix
    exact h hprefix.1.symm
  rw [untag, if_neg hstart, if_neg hend]

theorem untag_append (h : lessThan ∉ t) (s : Bytes) : untag 0 (t ++ s) = t ++ untag 0 s := by
  induction t with
  | nil => rfl
  | cons b t ih =>
    rw [List.mem_cons, not_or] at h
    rw [List.cons_append, untag_text (fun heq => h.1 heq.symm), ih h.2]
    rfl

theorem untag_start (s : Bytes) : untag 0 (strongStart ++ s) = star :: star :: untag 0 s := by
  rfl

theorem untag_end (s : Bytes) : untag 0 (strongEnd ++ s) = star :: star :: untag 0 s := by
  rfl

theorem markup_append {inside : Bool} (h : lessThan ∉ t) (hline : newline ∉ t)
    (hs : Markup inside s) : Markup inside (t ++ s) := by
  induction t with
  | nil => exact hs
  | cons b t ih =>
    rw [List.mem_cons, not_or] at h hline
    exact .text (fun heq => h.1 heq.symm) (fun _ heq => hline.1 heq.symm) (ih h.2 hline.2)

/-- Text without a `<` becomes markup, and taking the tags back gives the text. -/
theorem replaceBold_markup (s : Bytes) : lessThan ∉ s →
    Markup false (replaceBold 0 s) ∧ untag 0 (replaceBold 0 s) = s := by
  induction s using replaceBold_induct with
  | hnil => exact fun _ => ⟨.nil, rfl⟩
  | htext b s hlabel ih =>
    intro h
    rw [List.mem_cons, not_or] at h
    obtain ⟨hmarkup, huntag⟩ := ih h.2
    have hb : b ≠ lessThan := fun heq => h.1 heq.symm
    rw [replaceBold_text hlabel, untag_text hb, huntag]
    exact ⟨.text hb (fun hin => by cases hin) hmarkup, rfl⟩
  | hmatch label rest hlabel hline ih =>
    intro h
    have hfree : lessThan ∉ label ∧ lessThan ∉ rest := by
      simp only [List.cons_append, List.mem_cons, List.mem_append, not_or] at h
      exact ⟨h.2.2.1, h.2.2.2.2.2⟩
    obtain ⟨hmarkup, huntag⟩ := ih hfree.2
    rw [replaceBold_match hlabel rfl]
    simp only [List.append_assoc]
    refine ⟨.start (markup_append hfree.1 hline (.stop hmarkup)), ?_⟩
    rw [untag_start, untag_append hfree.1, untag_end, huntag]
    rfl

theorem lessThan_notMem_escapeByte (b : UInt8) : lessThan ∉ escapeByte b := by
  unfold escapeByte
  split_ifs with hnul hquote happ hamp hlt hgt
  · decide
  · decide
  · decide
  · decide
  · decide
  · decide
  · rw [List.mem_singleton]
    exact fun heq => hlt heq.symm

theorem lessThan_notMem_htmlEscape (s : Bytes) : lessThan ∉ htmlEscape s := by
  intro h
  obtain ⟨b, -, hb⟩ := List.mem_flatMap.mp h
  exact lessThan_notMem_escapeByte b hb

/-- A `<` of a text that begins with a tag is the tag's or one of what follows. -/
theorem tag_or_after {tag more before after : Bytes} (htag : tag = lessThan :: more)
    (hmore : lessThan ∉ more) (h : tag ++ s = before ++ lessThan :: after) :
    tag <+: lessThan :: after ∨ ∃ before', s = before' ++ lessThan :: after := by
  cases before with
  | nil => exact Or.inl ⟨s, h⟩
  | cons b before =>
    rw [htag, List.cons_append, List.cons_append, List.cons.injEq] at h
    rcases List.append_eq_append_iff.mp h.2 with ⟨rest, -, hs⟩ | ⟨rest, hsplit, hs⟩
    · exact Or.inr ⟨rest, hs⟩
    · cases rest with
      | nil => exact Or.inr ⟨[], hs.symm⟩
      | cons c rest =>
        rw [List.cons_append, List.cons.injEq] at hs
        rw [hsplit, ← hs.1] at hmore
        exact (hmore (by simp)).elim

/-- Every `<` of a marked up text begins a tag. -/
theorem Markup.tag {inside : Bool} (h : Markup inside s) : ∀ before after : Bytes,
    s = before ++ lessThan :: after →
    strongStart <+: lessThan :: after ∨ strongEnd <+: lessThan :: after := by
  induction h with
  | nil =>
    intro before after heq
    simp at heq
  | text hb _ _ ih =>
    intro before after heq
    cases before with
    | nil => exact (hb (List.cons.inj heq).1).elim
    | cons c before => exact ih before after (List.cons.inj heq).2
  | start _ ih =>
    intro before after heq
    rcases tag_or_after strongStart_eq (by decide) heq with hprefix | ⟨before', hs⟩
    · exact Or.inl hprefix
    · exact ih before' after hs
  | stop _ ih =>
    intro before after heq
    rcases tag_or_after strongEnd_eq (by decide) heq with hprefix | ⟨before', hs⟩
    · exact Or.inr hprefix
    · exact ih before' after hs

/-- The model's text never becomes markup, and none of it is lost. -/
theorem renderNarrative_markup (s : Bytes) :
    (∀ before after : Bytes, renderNarrative s = before ++ lessThan :: after →
      strongStart <+: lessThan :: after ∨ strongEnd <+: lessThan :: after) ∧
      Markup false (renderNarrative s) ∧ untag 0 (renderNarrative s) = htmlEscape s := by
  obtain ⟨hmarkup, huntag⟩ := replaceBold_markup (htmlEscape s) (lessThan_notMem_htmlEscape s)
  exact ⟨hmarkup.tag, hmarkup, huntag⟩

end Scimage.Console
