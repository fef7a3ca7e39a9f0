import Scimage.Lib.JsonLiteral
import Scimage.Scim.Filter
import Scimage.Store.Mutation

/-! What a filter looks up, and what its literal denotes. -/
namespace Scimage.Scim

open Store (trimSpace Postgres UserFilter GroupFilter UserRow GroupRow)
open Json (isPlain denotes_unique denotes_self_iff)

/-! ### What the expression captures -/

theorem quoted_no_quote {cs value : List Char} (h : quoted cs = some value) : '"' ∉ value := by
  unfold quoted at h
  split at h
  · split at h
    · split_ifs at h
      cases h
      intro hmem
      have hne := List.mem_takeWhile_imp hmem
      simp at hne
    · cases h
  · cases h

theorem eqFilter_no_quote {expr attr text : String} (h : eqFilter expr = some (attr, text)) :
    '"' ∉ text.toList := by
  unfold eqFilter at h
  simp only [Option.bind_eq_bind] at h
  split_ifs at h
  · cases h
  obtain ⟨cs, -, h⟩ := Option.bind_eq_some_iff.mp h
  split at h
  · obtain ⟨cs', -, h⟩ := Option.bind_eq_some_iff.mp h
    obtain ⟨value, hvalue, he⟩ := Option.bind_eq_some_iff.mp h
    cases he
    rw [String.toList_ofList]
    exact quoted_no_quote hvalue
  · cases h

variable {F : Type} {U : Unicode} {zero f : F} {apply : String → Option (String → F)}
  {choices expr : String}

theorem parseEq_ok (hexpr : trimSpace expr ≠ "") : parseEq U zero apply choices expr = .ok f ↔
    ∃ attr text set, eqFilter expr = some (attr, text) ∧ apply (U.lower attr) = some set ∧ text ≠ "" ∧
      f = set text := by
  rw [parseEq, if_neg hexpr]
  cases hmatch : eqFilter expr with
  | none =>
    constructor
    · intro h
      cases h
    · rintro ⟨attr, text, set, hm, -⟩
      cases hm
  | some m =>
    obtain ⟨attr, text⟩ := m
    dsimp only
    cases hset : apply (U.lower attr) with
    | none =>
      constructor
      · intro h
        cases h
      · rintro ⟨attr', text', set, hm, hs, -⟩
        cases hm
        cases hset.symm.trans hs
    | some set =>
      dsimp only
      by_cases htext : text = ""
      · rw [if_pos htext]
        constructor
        · intro h
          cases h
        · rintro ⟨attr', text', set', hm, -, hne, -⟩
          cases hm
          exact (hne htext).elim
      · rw [if_neg htext]
        constructor
        · intro h
          cases h
          exact ⟨attr, text, set, rfl, hset, htext, rfl⟩
        · rintro ⟨attr', text', set', hm, hs, -, rfl⟩
          cases hm
          cases hset.symm.trans hs
          rfl

/-! ### The value that is looked up -/

/-- The filter holds what the literal of the expression denotes. -/
def LooksUp (U : Unicode) (apply : String → Option (String → F)) (expr : String) (f : F) : Prop :=
  ∃ attr text set v, eqFilter expr = some (attr, text) ∧ apply (U.lower attr) = some set ∧
    Json.Denotes text.toList v ∧ f = set (String.ofList v)

/-- Nothing between the quotes is escaped, and no control character stands there. -/
def PlainLiteral (expr : String) : Prop :=
  ∀ attr text, eqFilter expr = some (attr, text) → ∀ c ∈ text.toList, isPlain c = true

theorem looksUp_iff (hset : ∀ name set, apply name = some set → Function.Injective set)
    (hexpr : trimSpace expr ≠ "") (h : parseEq U zero apply choices expr = .ok f) :
    LooksUp U apply expr f ↔ PlainLiteral expr := by
  obtain ⟨attr, text, set, hm, hs, -, rfl⟩ := (parseEq_ok hexpr).mp h
  have hself := denotes_self_iff (eqFilter_no_quote hm)
  constructor
  · rintro ⟨attr', text', set', v, hm', hs', hv, hf⟩
    cases hm.symm.trans hm'
    cases hs.symm.trans hs'
    have htext := hset _ _ hs hf
    rw [htext, String.toList_ofList] at hv hself
    intro attr' text' hm' c hc
    cases hm.symm.trans hm'
    rw [htext, String.toList_ofList] at hc
    exact hself.mp hv c hc
  · intro hplain
    exact ⟨attr, text, set, text.toList, hm, hs, hself.mpr (hplain attr text hm), by
      rw [String.ofList_toList]⟩

theorem filterable_injective {name : String} {set : String → UserFilter}
    (h : filterableAttributes name = some set) : Function.Injective set := by
  unfold filterableAttributes at h
  split_ifs at h
  · cases h
    intro v v' he
    exact congrArg UserFilter.userName he
  · cases h
    intro v v' he
    exact congrArg UserFilter.externalID he

theorem groupFilterable_injective {name : String} {set : String → GroupFilter}
    (h : groupFilterableAttributes name = some set) : Function.Injective set := by
  unfold groupFilterableAttributes at h
  split_ifs at h
  · cases h
    intro v v' he
    exact congrArg GroupFilter.displayName he
  · cases h
    intro v v' he
    exact congrArg GroupFilter.externalID he

/-- Whoever has the value `v` under the attribute is found. -/
theorem filterable_finds {name : String} {set : String → UserFilter} {v tenantID : String}
    {r : UserRow} (pg : Postgres) (h : filterableAttributes name = some set) (htenant : r.tenantID = tenantID)
    (hv : (name = "username" → r.userName = v) ∧ (name = "externalid" → r.externalID = some v)) :
    (set v).clause pg tenantID r = true := by
  unfold filterableAttributes at h
  split_ifs at h with huser hext
  · cases h
    simp [UserFilter.clause, htenant, hv.1 huser]
  · cases h
    simp [UserFilter.clause, htenant, hv.2 hext]

theorem groupFilterable_finds {name : String} {set : String → GroupFilter} {v tenantID : String}
    {r : GroupRow} (pg : Postgres) (h : groupFilterableAttributes name = some set)
    (htenant : r.tenantID = tenantID)
    (hv : (name = "displayname" → r.displayName = v) ∧ (name = "externalid" → r.externalID = some v)) :
    (set v).clause pg tenantID r = true := by
  unfold groupFilterableAttributes at h
  split_ifs at h with hname hext
  · cases h
    simp [GroupFilter.clause, htenant, hv.1 hname]
  · cases h
    simp [GroupFilter.clause, htenant, hv.2 hext]

/-- What a parsed filter is right about: it looks up what its literal denotes, and so it finds whoever has
that value. -/
structure Exact (U : Unicode) (pg : Postgres) {R : Type} (apply : String → Option (String → F))
    (clause : F → String → R → Bool) (has : String → String → R → Prop) (tenant : R → String)
    (expr : String) (f : F) : Prop where
  looksUp : LooksUp U apply expr f
  finds : ∀ attr text v, eqFilter expr = some (attr, text) → Json.Denotes text.toList v →
    ∀ r, has (U.lower attr) (String.ofList v) r → clause f (tenant r) r = true

def UserRow.has (name v : String) (r : UserRow) : Prop :=
  (name = "username" → r.userName = v) ∧ (name = "externalid" → r.externalID = some v)

def GroupRow.has (name v : String) (r : GroupRow) : Prop :=
  (name = "displayname" → r.displayName = v) ∧ (name = "externalid" → r.externalID = some v)

theorem exact_iff {pg : Postgres} {R : Type} {clause : F → String → R → Bool}
    {has : String → String → R → Prop} {tenant : R → String}
    (hset : ∀ name set, apply name = some set → Function.Injective set)
    (hfinds : ∀ name set v r, apply name = some set → has name v r → clause (set v) (tenant r) r = true)
    (hexpr : trimSpace expr ≠ "") (h : parseEq U zero apply choices expr = .ok f) :
    Exact U pg apply clause has tenant expr f ↔ PlainLiteral expr := by
  have hlooks := looksUp_iff hset hexpr h
  refine ⟨fun he => hlooks.mp he.looksUp, fun hplain => ⟨hlooks.mpr hplain, ?_⟩⟩
  intro attr text v hm hv r hr
  obtain ⟨attr', text', set, v', hm', hs, hv', rfl⟩ := hlooks.mpr hplain
  cases hm.symm.trans hm'
  cases denotes_unique hv hv'
  exact hfinds _ set _ r hs hr

def escapedAnn : String := "userName eq \"\\u0061nn\""

end Scimage.Scim
