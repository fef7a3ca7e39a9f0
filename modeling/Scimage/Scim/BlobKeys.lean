import Scimage.Scim.Batch
import Scimage.Scim.Registry

/-! Which keys the blob of a stored user has. -/
namespace Scimage.Scim

open Store (Db Postgres UserRow AttributeRow scanUser jsonbParam reservedAttribute)
open Relational (Table)
open Json (Value Map Ranking)

/-- The blob of the row is read, and has the key. -/
def BlobKey (row : UserRow) (k : String) : Prop :=
  ∃ m, readBlob (scanUser row).extendedAttributes = some m ∧ (m.find? k).isSome

theorem alike_isSome {m n : Map} (h : m.Alike n) (k : String) :
    (m.find? k).isSome = (n.find? k).isSome := by
  have hk := congrArg Option.isSome (h k)
  rwa [Option.isSome_map, Option.isSome_map] at hk

/-! ### What is written -/

variable {pg : Postgres} {U : Unicode} {T : TimeText} {db db' : Db} {registered : Registry}

theorem capture_key {es : List (String × Value)} {m : Map} {e : String × Value}
    (h : e ∈ (es.foldl (capture U registered) m).rows) :
    e ∈ m.rows ∨ ∃ k, registered.canonical U k = some e.1 := by
  induction es generalizing m with
  | nil => exact Or.inl h
  | cons x es ih =>
    rcases ih h with h | h
    · unfold capture at h
      cases hcanon : registered.canonical U x.1 with
      | none =>
        rw [hcanon] at h
        exact Or.inl h
      | some canon =>
        rw [hcanon] at h
        rcases Table.mem_put.mp h with rfl | ⟨h, -⟩
        · exact Or.inr ⟨x.1, hcanon⟩
        · exact Or.inl h
    · exact Or.inr h

/-- The captured keys are registered names. -/
theorem captureExtended_text (ω : Ranking) (body : Map) :
    ∃ m : Map, captureExtended U ω body registered = blobText m ∧
      ∀ e ∈ m.rows, ∃ k, registered.canonical U k = some e.1 := by
  by_cases hnone : registered.rows = [] ∨ body.rows = []
  · refine ⟨.empty, ?_, fun e he => (List.not_mem_nil he).elim⟩
    rw [captureExtended, if_pos hnone]
    rfl
  · refine ⟨(body.range ω).foldl (capture U registered) .empty, ?_, ?_⟩
    · rw [captureExtended, if_neg hnone]
      rfl
    · intro e he
      exact (capture_key he).resolve_left List.not_mem_nil

/-- A PATCH leaves keys that were there, and adds registered names. -/
theorem applyAll_key {ops : List Scheduled} {m : Map} {k : String}
    (h : (((ops.flatMap (extendedSteps U registered)).foldl ExtendedOp.apply m).find? k).isSome) :
    (m.find? k).isSome ∨ ∃ name, registered.canonical U name = some k := by
  by_cases hnamed : ∀ o ∈ ops.flatMap (extendedSteps U registered), o.name ≠ k
  · rw [applyAll_other hnamed] at h
    exact Or.inl h
  · push Not at hnamed
    obtain ⟨o, ho, rfl⟩ := hnamed
    obtain ⟨s, -, ho⟩ := List.mem_flatMap.mp ho
    obtain ⟨e, -, hcanon, -⟩ := mem_extendedSteps.mp ho
    obtain ⟨key, -, hkey⟩ := Option.bind_eq_some_iff.mp hcanon
    exact Or.inr ⟨key, hkey⟩

/-! ### What is stored -/

/-- A key of a blob is a name that is registered, or one of the blob that was there before. -/
theorem UserFrom.blobKey {row : UserRow} (h : UserFrom pg U db row) (laws : JsonbLaws pg)
    (hkept : ∀ c ∈ db.users.rows, UserKept pg c) {k : String} (hk : BlobKey row k) :
    (∃ a ∈ db.attributes.rows, a.tenantID = row.tenantID ∧ a.name = k) ∨
      ∃ c, db.users.find? row.id = some c ∧ c.tenantID = row.tenantID ∧ BlobKey c k := by
  have hregistered : ∀ (extended : Bool) (name canon : String), Registry.canonical U
      (if extended then registeredAttributes U (db.attributesOf row.tenantID) else .empty) name =
        some canon → ∃ a ∈ db.attributes.rows, a.tenantID = row.tenantID ∧ a.name = canon := by
    intro extended name canon hcanon
    cases extended with
    | false => cases hcanon
    | true =>
      obtain ⟨a, ha, hname, -⟩ := canonical_some hcanon
      obtain ⟨hmem, htenant⟩ := mem_attributesOf ha
      exact ⟨a, hmem, htenant, hname⟩
  obtain ⟨n, hn, hk⟩ := hk
  cases h with
  | body extended ω u keys hvalid hcols hblob =>
    obtain ⟨m, htext, hkeys⟩ := captureExtended_text (U := U) ω keys
    rw [htext] at hblob
    rw [← alike_isSome (reread_alike laws hblob hn)] at hk
    obtain ⟨e, he⟩ := Option.isSome_iff_exists.mp hk
    obtain ⟨name, hcanon⟩ := hkeys e (Table.find?_mem he)
    have hkey : e.1 = k := Table.find?_key he
    rw [hkey] at hcanon
    exact Or.inl (hregistered extended name k hcanon)
  | patch extended c baseURL ops su hfind htenant hpatch hcols hblob =>
    obtain ⟨chs, blob, -, happly, rfl⟩ := patchUser_ok hpatch
    by_cases hnone : ops.flatMap (extendedSteps U
        (if extended then registeredAttributes U (db.attributesOf row.tenantID) else .empty)) = []
    · rw [hnone] at happly
      cases happly
      have hsame := getD_parses laws (hkept c (Table.find?_mem hfind)).blob
      have hext : row.extendedAttributes = c.extendedAttributes :=
        (Except.ok.inj (hsame.symm.trans hblob)).symm
      change readBlob (row.extendedAttributes.getD "") = some n at hn
      rw [hext] at hn
      exact Or.inr ⟨c, hfind, htenant, n, hn, hk⟩
    · obtain ⟨m, hm, rfl⟩ := (applyExtendedOps_some hnone).mp happly
      rw [← alike_isSome (reread_alike laws hblob hn)] at hk
      rcases applyAll_key hk with hold | ⟨name, hcanon⟩
      · exact Or.inr ⟨c, hfind, htenant, m, hm, hold⟩
      · exact Or.inl (hregistered extended name k hcanon)
  | deactivated now c hfind hrow =>
    subst hrow
    exact Or.inr ⟨c, hfind, rfl, n, hn, hk⟩

/-- No blob has a reserved key, in any run. -/
theorem blob_unreserved (laws : JsonbLaws pg) (h : Reachable pg U T db) :
    ∀ row ∈ db.users.rows, ∀ k, BlobKey row k → reservedAttribute k = false := by
  induction h with
  | empty => exact fun _ hrow => (List.not_mem_nil hrow).elim
  | step hreach hmove ih =>
    have hkept := reachable_kept hreach
    cases moves_effect hmove with
    | nothing h => rwa [h.1]
    | user row hdb howner hfree hrow =>
      rw [hdb.1]
      intro c hc k hk
      rcases Table.mem_put.mp hc with rfl | ⟨hc, -⟩
      · rcases hrow.blobKey laws hkept.users hk with ⟨a, ha, -, rfl⟩ | ⟨c', hfind, -, hk'⟩
        · exact hkept.attributes a ha
        · exact ih c' (Table.find?_mem hfind) k hk'
      · exact ih c hc k hk
    | group row id ids now v hid hfree hrow hex hdb =>
      rw [hdb.1, (Store.exchanged_frame hid hex).1]
      exact ih
    | dropGroup k hdb =>
      rw [hdb.1]
      exact ih
    | register a ha hdb =>
      rw [hdb.1]
      exact ih
    | unregister k hdb =>
      rw [hdb.1]
      exact ih

end Scimage.Scim
