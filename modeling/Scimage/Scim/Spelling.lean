import Scimage.Scim.Changes
import Scimage.Scim.Members
import Scimage.Scim.Membership

/-! The ids of members as clients spell them and as PostgreSQL reads them. -/
namespace Scimage.Scim

open Store (Uuid trimSpace trimSpace_eq_self isSpace dedupeNonEmpty mem_dedupeNonEmpty
  nodup_dedupeNonEmpty parseIDs parseIDs_ok)
open Json (Value Map Ranking quote readMap)

/-! ### The ids that operations name -/

/-- What an operation sets, path by path. -/
def settings (op : Operation) : List (String × Option Value) :=
  if trimSpace op.path = "" then
    ((op.value.bind readMap).map fun m => m.rows.map fun e => (e.1, some e.2)).getD []
  else [(op.path, op.value)]

def AtMembers (U : Unicode) (e : String × Option Value) : Prop :=
  isMembersPath (U.lower (trimSpace e.1)) = true

instance (U : Unicode) : DecidablePred (AtMembers U) := fun _ => inferInstanceAs (Decidable (_ = _))

def givenAt (U : Unicode) (e : String × Option Value) : List String :=
  if AtMembers U e then (decodeMemberValues e.2).toOption.getD [] else []

/-- The ids in the values of an operation. -/
def givenBy (U : Unicode) (op : Operation) : List String :=
  if op.action U = "add" ∨ op.action U = "replace" then (settings op).flatMap (givenAt U) else []

/-- The ids in the values of an operation and the one that its path singles out. -/
def namedBy (U : Unicode) (op : Operation) : List String :=
  givenBy U op ++ (filteredMemberValue (trimSpace op.path)).toList

/-- The operation leaves none of the members that there were. -/
def Overwrites (U : Unicode) (op : Operation) : Prop :=
  op.action U = "replace" ∧ (∃ e ∈ settings op, AtMembers U e) ∨
    op.action U = "remove" ∧ U.lower (trimSpace op.path) = "members"

instance (U : Unicode) : DecidablePred (Overwrites U) := fun _ => inferInstanceAs (Decidable (_ ∨ _))

/-- The ids that operations give and do not overwrite again. -/
def given (U : Unicode) : List (Operation × Ranking) → List String
  | [] => []
  | o :: os => (if ∃ o' ∈ os, Overwrites U o'.1 then [] else givenBy U o.1) ++ given U os

/-- The ids that operations name before they overwrite the members. -/
def named (U : Unicode) : List (Operation × Ranking) → List String
  | [] => []
  | o :: os => if Overwrites U o.1 then [] else namedBy U o.1 ++ named U os

def Group.ids (g : Group) : List String := g.members.items.map Member.value

/-- The UUID that a member id comes to, as it is stored. -/
def spelled (s : String) : Option Uuid := Uuid.parse (trimSpace s)

/-! ### Lists of ids up to spelling -/

def Loose (P : Uuid → Prop) (s : String) : Prop := ∃ k, P k ∧ spelled s = some k

/-- The same ids, but that a UUID in `P` may be spelt differently in the two. -/
structure Spelt (P : Uuid → Prop) (M N : List String) : Prop where
  same : ∀ s, trimSpace s ≠ "" → ¬ Loose P s → (s ∈ M ↔ s ∈ N)
  held : ∀ k, P k → ((∃ s ∈ M, spelled s = some k) ↔ ∃ s ∈ N, spelled s = some k)
  once : ∀ k, P k → ∀ s ∈ M, ∀ s' ∈ M, spelled s = some k → spelled s' = some k →
    trimSpace s = trimSpace s'

variable {P : Uuid → Prop} {M N M' N' : List String}

theorem Spelt.refl (h : ∀ s ∈ M, ¬ Loose P s) : Spelt P M M :=
  ⟨fun _ _ _ => Iff.rfl, fun _ _ => Iff.rfl, fun k hk s hs _ _ hk' => (h s hs ⟨k, hk, hk'⟩).elim⟩

/-- Ids that are spelt alike in both may come and go. -/
theorem Spelt.change (h : Spelt P M N) (hM : ∀ s, Loose P s → (s ∈ M' ↔ s ∈ M))
    (hN : ∀ s, Loose P s → (s ∈ N' ↔ s ∈ N))
    (hsame : ∀ s, trimSpace s ≠ "" → ¬ Loose P s → (s ∈ M ↔ s ∈ N) → (s ∈ M' ↔ s ∈ N')) :
    Spelt P M' N' := by
  refine ⟨fun s hne hs => hsame s hne hs (h.same s hne hs), ?_, ?_⟩
  · intro k hk
    have hleft : (∃ s ∈ M', spelled s = some k) ↔ ∃ s ∈ M, spelled s = some k :=
      exists_congr fun s => and_congr_left fun hs => hM s ⟨k, hk, hs⟩
    have hright : (∃ s ∈ N', spelled s = some k) ↔ ∃ s ∈ N, spelled s = some k :=
      exists_congr fun s => and_congr_left fun hs => hN s ⟨k, hk, hs⟩
    rw [hleft, hright]
    exact h.held k hk
  · intro k hk s hs s' hs' hspell hspell'
    exact h.once k hk s ((hM s ⟨k, hk, hspell⟩).mp hs) s' ((hM s' ⟨k, hk, hspell'⟩).mp hs') hspell hspell'

/-! ### Two groups side by side -/

structure Twin (P : Uuid → Prop) (g g' : Group) : Prop where
  schemas : groupSchema ∈ g.schemas.items ↔ groupSchema ∈ g'.schemas.items
  name : trimSpace g.displayName = trimSpace g'.displayName
  external : nonEmpty (trimSpace g.externalID) = nonEmpty (trimSpace g'.externalID)
  ids : Spelt P g.ids g'.ids

variable {U : Unicode} {g g' h' : Group} {isAdd : Bool} {raw : Option Value} {path : String}

theorem mem_addMembers (old : List Member) (values : List String) (s : String) :
    s ∈ (addMembers old values).map Member.value ↔ s ∈ old.map Member.value ∨ s ∈ values := by
  rw [(addMembers_union old values).mem_iff]

/-- The same ids in every spelling. -/
def Never (_ : Uuid) : Prop := False

theorem never_loose (s : String) : ¬ Loose Never s := fun ⟨_, h, _⟩ => h

theorem setMembers_twin (isAdd : Bool) {values : List String} (ht : Twin P g g')
    (hdecode : decodeMemberValues raw = .ok values) (hfree : ∀ v ∈ values, ¬ Loose P v) :
    ∃ h h', setMembers g raw isAdd = .ok h ∧ setMembers g' raw isAdd = .ok h' ∧ Twin P h h' := by
  refine ⟨_, _, setMembers_ok hdecode, setMembers_ok hdecode, ht.schemas, ht.name, ht.external, ?_⟩
  cases isAdd with
  | true =>
    refine ht.ids.change ?_ ?_ ?_
    · intro s hs
      exact (mem_addMembers _ _ s).trans (or_iff_left fun hv => hfree s hv hs)
    · intro s hs
      exact (mem_addMembers _ _ s).trans (or_iff_left fun hv => hfree s hv hs)
    · intro s _ _ hsame
      exact (mem_addMembers _ _ s).trans ((or_congr_left hsame).trans (mem_addMembers _ _ s).symm)
  | false =>
    refine Spelt.refl ?_
    intro s hs
    change s ∈ (values.map Member.of).map Member.value at hs
    rw [map_value_of] at hs
    exact hfree s hs

/-- What a `replace` of the members leaves is the same whatever there was. -/
theorem setMembers_overwrites {values : List String} (ht : Twin P g g')
    (hdecode : decodeMemberValues raw = .ok values) :
    ∃ h h', setMembers g raw false = .ok h ∧ setMembers g' raw false = .ok h' ∧ Twin Never h h' :=
  ⟨_, _, setMembers_ok hdecode, setMembers_ok hdecode, ht.schemas, ht.name, ht.external,
    Spelt.refl fun s _ => never_loose s⟩

theorem givenAt_members {e : String × Option Value} {values : List String} (h : AtMembers U e)
    (hdecode : decodeMemberValues e.2 = .ok values) : givenAt U e = values := by
  rw [givenAt, if_pos h, hdecode]
  rfl

/-- A path is refused for both or taken for both. -/
theorem setGroupPath_twin {e : String × Option Value} (ht : Twin P g g')
    (hfree : ∀ v ∈ givenAt U e, ¬ Loose P v) (hok : setGroupPath U isAdd g' e.1 e.2 = .ok h') :
    ∃ h, setGroupPath U isAdd g e.1 e.2 = .ok h ∧ Twin P h h' := by
  by_cases hmembers : AtMembers U e
  · rw [setGroupPath_members hmembers] at hok ⊢
    cases hdecode : decodeMemberValues e.2 with
    | error err =>
      rw [setMembers_refused hdecode] at hok
      cases hok
    | ok values =>
      rw [givenAt_members hmembers hdecode] at hfree
      obtain ⟨h, k, hset, hset', hk⟩ := setMembers_twin isAdd ht hdecode hfree
      cases hset'.symm.trans hok
      exact ⟨h, hset, hk⟩
  · unfold setGroupPath at hok ⊢
    dsimp only at hok ⊢
    cases hv : assignString e.2 e.1 with
    | error err =>
      rw [hv] at hok
      split_ifs at hok with hname hext hpath
      · cases hok
      · cases hok
      · exact (hmembers hpath).elim
    | ok v =>
      rw [hv] at hok
      split_ifs at hok ⊢ with hname hext hpath
      · cases hok
        exact ⟨_, rfl, ht.schemas, rfl, ht.external, ht.ids⟩
      · cases hok
        exact ⟨_, rfl, ht.schemas, ht.name, rfl, ht.ids⟩
      · exact (hmembers hpath).elim

theorem setGroupPath_overwrites {e : String × Option Value} (ht : Twin P g g')
    (hmembers : AtMembers U e) (hok : setGroupPath U false g' e.1 e.2 = .ok h') :
    ∃ h, setGroupPath U false g e.1 e.2 = .ok h ∧ Twin Never h h' := by
  rw [setGroupPath_members hmembers] at hok ⊢
  cases hdecode : decodeMemberValues e.2 with
  | error err =>
    rw [setMembers_refused hdecode] at hok
    cases hok
  | ok values =>
    obtain ⟨h, k, hset, hset', hk⟩ := setMembers_overwrites ht hdecode
    cases hset'.symm.trans hok
    exact ⟨h, hset, hk⟩

def setAll (U : Unicode) (isAdd : Bool) (g : Group) (es : List (String × Option Value)) :
    Patched Group :=
  es.foldlM (fun g e => setGroupPath U isAdd g e.1 e.2) g

theorem setAll_twin {es : List (String × Option Value)} (ht : Twin P g g')
    (hfree : ∀ v ∈ es.flatMap (givenAt U), ¬ Loose P v) (hok : setAll U isAdd g' es = .ok h') :
    ∃ h, setAll U isAdd g es = .ok h ∧ Twin P h h' := by
  induction es generalizing g g' with
  | nil =>
    cases hok
    exact ⟨g, rfl, ht⟩
  | cons e es ih =>
    rw [setAll, List.foldlM_cons] at hok
    cases hset : setGroupPath U isAdd g' e.1 e.2 with
    | error err =>
      rw [hset] at hok
      cases hok
    | ok k' =>
      rw [hset] at hok
      obtain ⟨k, hk, htk⟩ := setGroupPath_twin ht
        (fun v hv => hfree v (List.mem_flatMap.mpr ⟨e, List.mem_cons_self, hv⟩)) hset
      obtain ⟨h, hh, hth⟩ := ih htk (fun v hv => hfree v (by
        rw [List.flatMap_cons]
        exact List.mem_append_right _ hv)) hok
      refine ⟨h, ?_, hth⟩
      rw [setAll, List.foldlM_cons, hk]
      exact hh

theorem setAll_overwrites {es : List (String × Option Value)} (ht : Twin P g g')
    (hover : ∃ e ∈ es, AtMembers U e) (hok : setAll U false g' es = .ok h') :
    ∃ h, setAll U false g es = .ok h ∧ Twin Never h h' := by
  induction es generalizing g g' with
  | nil =>
    obtain ⟨e, he, -⟩ := hover
    cases he
  | cons e es ih =>
    rw [setAll, List.foldlM_cons] at hok
    cases hset : setGroupPath U false g' e.1 e.2 with
    | error err =>
      rw [hset] at hok
      cases hok
    | ok k' =>
      rw [hset] at hok
      have hrest : ∃ k, setGroupPath U false g e.1 e.2 = .ok k ∧
          ∃ h, setAll U false k es = .ok h ∧ Twin Never h h' := by
        by_cases hmembers : AtMembers U e
        · obtain ⟨k, hk, htk⟩ := setGroupPath_overwrites ht hmembers hset
          exact ⟨k, hk, setAll_twin htk (fun v _ => never_loose v) hok⟩
        · have hnone : givenAt U e = [] := if_neg hmembers
          obtain ⟨k, hk, htk⟩ := setGroupPath_twin ht (fun v hv => by
            rw [hnone] at hv
            cases hv) hset
          refine ⟨k, hk, ih htk ?_ hok⟩
          obtain ⟨e', he', hover'⟩ := hover
          rcases List.mem_cons.mp he' with rfl | he'
          · exact (hmembers hover').elim
          · exact ⟨e', he', hover'⟩
      obtain ⟨k, hk, h, hh, hth⟩ := hrest
      refine ⟨h, ?_, hth⟩
      rw [setAll, List.foldlM_cons, hk]
      exact hh

/-- An `add` or a `replace` that is accepted goes through its settings in some order. -/
theorem applyGroupValue_settings {ω : Ranking} {op : Operation} {h : Group}
    (hok : applyGroupValue U ω isAdd g op = .ok h) : ∃ es, es.Perm (settings op) ∧
      ∀ g, applyGroupValue U ω isAdd g op = setAll U isAdd g es := by
  by_cases hpath : trimSpace op.path = ""
  · rw [applyGroupValue, if_pos hpath] at hok
    cases hattrs : op.value.bind readMap with
    | none =>
      rw [hattrs] at hok
      cases hok
    | some attrs =>
      refine ⟨(attrs.range ω).map fun e => (e.1, some e.2), ?_, fun g => ?_⟩
      · rw [settings, if_pos hpath, hattrs]
        exact (Json.range_perm ω attrs).map _
      · rw [applyGroupValue, if_pos hpath, hattrs, setAll, List.foldlM_map]
  · refine ⟨settings op, .refl _, fun g => ?_⟩
    rw [applyGroupValue, if_neg hpath, settings, if_neg hpath, setAll, List.foldlM_cons]
    cases setGroupPath U isAdd g op.path op.value <;> rfl

theorem applyGroupValue_twin {ω : Ranking} {op : Operation} (ht : Twin P g g')
    (hfree : ∀ v ∈ (settings op).flatMap (givenAt U), ¬ Loose P v)
    (hok : applyGroupValue U ω isAdd g' op = .ok h') :
    ∃ h, applyGroupValue U ω isAdd g op = .ok h ∧ Twin P h h' := by
  obtain ⟨es, hperm, hes⟩ := applyGroupValue_settings hok
  rw [hes] at hok ⊢
  refine setAll_twin ht ?_ hok
  intro v hv
  exact hfree v ((hperm.flatMap_right _).mem_iff.mp hv)

theorem applyGroupValue_overwrites {ω : Ranking} {op : Operation} (ht : Twin P g g')
    (hover : ∃ e ∈ settings op, AtMembers U e) (hok : applyGroupValue U ω false g' op = .ok h') :
    ∃ h, applyGroupValue U ω false g op = .ok h ∧ Twin Never h h' := by
  obtain ⟨es, hperm, hes⟩ := applyGroupValue_settings hok
  rw [hes] at hok ⊢
  obtain ⟨e, he, hmembers⟩ := hover
  exact setAll_overwrites ht ⟨e, hperm.mem_iff.mpr he, hmembers⟩ hok

theorem mem_removeMember (members : List Member) (value s : String) :
    s ∈ (removeMember members value).map Member.value ↔ s ∈ members.map Member.value ∧ s ≠ value := by
  simp only [removeMember, List.mem_map, List.mem_filter, decide_eq_true_eq]
  constructor
  · rintro ⟨m, ⟨hm, hne⟩, rfl⟩
    exact ⟨⟨m, hm, rfl⟩, hne⟩
  · rintro ⟨⟨m, hm, rfl⟩, hne⟩
    exact ⟨m, ⟨hm, hne⟩, rfl⟩

theorem clearGroupPath_twin (ht : Twin P g g')
    (hfree : ∀ v, filteredMemberValue (trimSpace path) = some v → ¬ Loose P v)
    (hok : clearGroupPath U g' path = .ok h') :
    ∃ h, clearGroupPath U g path = .ok h ∧ Twin P h h' := by
  unfold clearGroupPath at hok ⊢
  dsimp only at hok ⊢
  cases hv : filteredMemberValue (trimSpace path) with
  | none =>
    rw [hv] at hok
    split_ifs at hok ⊢
    · cases hok
      exact ⟨_, rfl, ht.schemas, ht.name, rfl, ht.ids⟩
    · cases hok
      exact ⟨_, rfl, ht.schemas, ht.name, ht.external, Spelt.refl fun _ hs => (nomatch hs)⟩
  | some v =>
    rw [hv] at hok
    split_ifs at hok ⊢
    · cases hok
      exact ⟨_, rfl, ht.schemas, ht.name, rfl, ht.ids⟩
    · cases hok
      exact ⟨_, rfl, ht.schemas, ht.name, ht.external, Spelt.refl fun _ hs => (nomatch hs)⟩
    · cases hok
      refine ⟨_, rfl, ht.schemas, ht.name, ht.external, ht.ids.change ?_ ?_ ?_⟩
      · rintro s hs
        refine (mem_removeMember _ v s).trans (and_iff_left ?_)
        rintro rfl
        exact hfree _ hv hs
      · rintro s hs
        refine (mem_removeMember _ v s).trans (and_iff_left ?_)
        rintro rfl
        exact hfree _ hv hs
      · intro s _ _ hsame
        exact (mem_removeMember _ v s).trans
          ((and_congr_left fun _ => hsame).trans (mem_removeMember _ v s).symm)

/-- An operation that names no loose id does the same to both. -/
theorem applyGroupOp_twin {o : Operation × Ranking} (ht : Twin P g g')
    (hfree : ∀ v ∈ namedBy U o.1, ¬ Loose P v) (hok : applyGroupOp U g' o = .ok h') :
    ∃ h, applyGroupOp U g o = .ok h ∧ Twin P h h' := by
  have hgiven : o.1.action U = "add" ∨ o.1.action U = "replace" →
      ∀ v ∈ (settings o.1).flatMap (givenAt U), ¬ Loose P v := by
    intro haction v hv
    refine hfree v (List.mem_append_left _ ?_)
    rw [givenBy, if_pos haction]
    exact hv
  unfold applyGroupOp at hok ⊢
  split_ifs at hok ⊢ with hadd hreplace hremove
  · exact applyGroupValue_twin ht (hgiven (Or.inl hadd)) hok
  · exact applyGroupValue_twin ht (hgiven (Or.inr hreplace)) hok
  · refine clearGroupPath_twin ht (fun v hv => hfree v (List.mem_append_right _ ?_)) hok
    rw [hv]
    exact List.mem_singleton_self v

/-- An operation that overwrites the members makes them the same in both. -/
theorem applyGroupOp_overwrites {o : Operation × Ranking} (ht : Twin P g g')
    (hover : Overwrites U o.1) (hok : applyGroupOp U g' o = .ok h') :
    ∃ h, applyGroupOp U g o = .ok h ∧ Twin Never h h' := by
  rcases hover with ⟨hreplace, hmembers⟩ | ⟨hremove, hpath⟩
  · rw [applyGroupOp_replace hreplace] at hok ⊢
    exact applyGroupValue_overwrites ht hmembers hok
  · rw [applyGroupOp_remove hremove, clearGroupPath_members hpath] at hok ⊢
    cases hok
    exact ⟨_, rfl, ht.schemas, ht.name, ht.external, Spelt.refl fun _ hs => (nomatch hs)⟩

theorem applyOps_twin {os : List (Operation × Ranking)} (ht : Twin P g g')
    (hfree : ∀ v ∈ named U os, ¬ Loose P v) (hok : os.foldlM (applyGroupOp U) g' = .ok h') :
    ∃ h, os.foldlM (applyGroupOp U) g = .ok h ∧ ∃ Q, (∀ k, Q k → P k) ∧ Twin Q h h' := by
  induction os generalizing P g g' with
  | nil =>
    cases hok
    exact ⟨g, rfl, P, fun _ => id, ht⟩
  | cons o os ih =>
    rw [List.foldlM_cons] at hok ⊢
    cases hop : applyGroupOp U g' o with
    | error err =>
      rw [hop] at hok
      cases hok
    | ok k' =>
      rw [hop] at hok
      by_cases hover : Overwrites U o.1
      · obtain ⟨k, hk, htk⟩ := applyGroupOp_overwrites ht hover hop
        obtain ⟨h, hh, Q, hQ, hth⟩ := ih htk (fun v _ => never_loose v) hok
        rw [hk]
        exact ⟨h, hh, Q, fun x hx => (hQ x hx).elim, hth⟩
      · rw [named, if_neg hover] at hfree
        obtain ⟨k, hk, htk⟩ := applyGroupOp_twin ht
          (fun v hv => hfree v (List.mem_append_left _ hv)) hop
        obtain ⟨h, hh, Q, hQ, hth⟩ := ih htk (fun v hv => hfree v (List.mem_append_right _ hv)) hok
        rw [hk]
        exact ⟨h, hh, Q, hQ, hth⟩

/-! ### Where the ids come from -/

variable {h : Group} {s : String}

theorem setGroupPath_ids {e : String × Option Value} (hok : setGroupPath U isAdd g e.1 e.2 = .ok h)
    (hs : s ∈ h.ids) : s ∈ g.ids ∧ ¬ (isAdd = false ∧ AtMembers U e) ∨ s ∈ givenAt U e := by
  by_cases hmembers : AtMembers U e
  · rw [setGroupPath_members hmembers] at hok
    cases hdecode : decodeMemberValues e.2 with
    | error err =>
      rw [setMembers_refused hdecode] at hok
      cases hok
    | ok values =>
      rw [givenAt_members hmembers hdecode]
      rw [setMembers_ok hdecode] at hok
      cases isAdd with
      | true =>
        cases hok
        refine ((mem_addMembers g.members.items values s).mp hs).imp_left fun hs => ⟨hs, ?_⟩
        rintro ⟨hreplace, -⟩
        cases hreplace
      | false =>
        cases hok
        right
        change s ∈ (values.map Member.of).map Member.value at hs
        rwa [map_value_of] at hs
  · left
    refine ⟨?_, fun h => hmembers h.2⟩
    unfold setGroupPath at hok
    dsimp only at hok
    cases hv : assignString e.2 e.1 with
    | error err =>
      rw [hv] at hok
      split_ifs at hok with hname hext hpath
      · cases hok
      · cases hok
      · exact (hmembers hpath).elim
    | ok v =>
      rw [hv] at hok
      split_ifs at hok with hname hext hpath
      · cases hok
        exact hs
      · cases hok
        exact hs
      · exact (hmembers hpath).elim

theorem setAll_ids {es : List (String × Option Value)} (hok : setAll U isAdd g es = .ok h)
    (hs : s ∈ h.ids) : s ∈ g.ids ∧ ¬ (isAdd = false ∧ ∃ e ∈ es, AtMembers U e) ∨
      s ∈ es.flatMap (givenAt U) := by
  induction es generalizing g with
  | nil =>
    cases hok
    refine Or.inl ⟨hs, ?_⟩
    rintro ⟨-, e, he, -⟩
    cases he
  | cons e es ih =>
    rw [setAll, List.foldlM_cons] at hok
    cases hset : setGroupPath U isAdd g e.1 e.2 with
    | error err =>
      rw [hset] at hok
      cases hok
    | ok k =>
      rw [hset] at hok
      rw [List.flatMap_cons, List.mem_append]
      rcases ih hok with ⟨hk, hnone⟩ | hgiven
      · rcases setGroupPath_ids hset hk with ⟨hg, hnot⟩ | hgiven
        · refine Or.inl ⟨hg, ?_⟩
          rintro ⟨hreplace, e', he', hmembers⟩
          rcases List.mem_cons.mp he' with rfl | he'
          · exact hnot ⟨hreplace, hmembers⟩
          · exact hnone ⟨hreplace, e', he', hmembers⟩
        · exact Or.inr (Or.inl hgiven)
      · exact Or.inr (Or.inr hgiven)

theorem applyGroupValue_ids {ω : Ranking} {op : Operation}
    (hok : applyGroupValue U ω isAdd g op = .ok h) (hs : s ∈ h.ids) :
    s ∈ g.ids ∧ ¬ (isAdd = false ∧ ∃ e ∈ settings op, AtMembers U e) ∨
      s ∈ (settings op).flatMap (givenAt U) := by
  obtain ⟨es, hperm, hes⟩ := applyGroupValue_settings hok
  rw [hes] at hok
  rcases setAll_ids hok hs with ⟨hg, hnot⟩ | hgiven
  · refine Or.inl ⟨hg, ?_⟩
    rintro ⟨hreplace, e, he, hmembers⟩
    exact hnot ⟨hreplace, e, hperm.mem_iff.mpr he, hmembers⟩
  · exact Or.inr ((hperm.flatMap_right _).mem_iff.mp hgiven)

theorem clearGroupPath_ids (hok : clearGroupPath U g path = .ok h) (hs : s ∈ h.ids) :
    s ∈ g.ids ∧ U.lower (trimSpace path) ≠ "members" := by
  unfold clearGroupPath at hok
  dsimp only at hok
  cases hv : filteredMemberValue (trimSpace path) with
  | none =>
    rw [hv] at hok
    split_ifs at hok with hempty hext hmembers
    · cases hok
      refine ⟨hs, ?_⟩
      rw [hext]
      decide
    · cases hok
      cases hs
  | some v =>
    rw [hv] at hok
    split_ifs at hok with hempty hext hmembers hpath
    · cases hok
      refine ⟨hs, ?_⟩
      rw [hext]
      decide
    · cases hok
      cases hs
    · cases hok
      exact ⟨((mem_removeMember _ v s).mp hs).1, hmembers⟩

theorem action_ne {op : Operation} {a b : String} (h : op.action U = a) (hne : a ≠ b) :
    op.action U ≠ b := by
  rw [h]
  exact hne

theorem applyGroupOp_ids {o : Operation × Ranking} (hok : applyGroupOp U g o = .ok h)
    (hs : s ∈ h.ids) : s ∈ g.ids ∧ ¬ Overwrites U o.1 ∨ s ∈ givenBy U o.1 := by
  unfold applyGroupOp at hok
  split_ifs at hok with hadd hreplace hremove
  · rw [givenBy, if_pos (Or.inl hadd)]
    refine (applyGroupValue_ids hok hs).imp_left fun hg => ⟨hg.1, ?_⟩
    rintro (⟨hover, -⟩ | ⟨hover, -⟩)
    · exact action_ne hadd (by decide) hover
    · exact action_ne hadd (by decide) hover
  · rw [givenBy, if_pos (Or.inr hreplace)]
    refine (applyGroupValue_ids hok hs).imp_left fun hg => ⟨hg.1, ?_⟩
    rintro (⟨-, hover⟩ | ⟨hover, -⟩)
    · exact hg.2 ⟨rfl, hover⟩
    · exact action_ne hreplace (by decide) hover
  · obtain ⟨hg, hpath⟩ := clearGroupPath_ids hok hs
    refine Or.inl ⟨hg, ?_⟩
    rintro (⟨hover, -⟩ | ⟨-, hover⟩)
    · exact action_ne hremove (by decide) hover
    · exact hpath hover

theorem applyOps_ids {os : List (Operation × Ranking)} (hok : os.foldlM (applyGroupOp U) g = .ok h)
    (hs : s ∈ h.ids) : s ∈ g.ids ∧ (¬ ∃ o ∈ os, Overwrites U o.1) ∨ s ∈ given U os := by
  induction os generalizing g with
  | nil =>
    cases hok
    refine Or.inl ⟨hs, ?_⟩
    rintro ⟨o, ho, -⟩
    cases ho
  | cons o os ih =>
    rw [List.foldlM_cons] at hok
    cases hop : applyGroupOp U g o with
    | error err =>
      rw [hop] at hok
      cases hok
    | ok k =>
      rw [hop] at hok
      rw [given, List.mem_append]
      rcases ih hok with ⟨hk, hnone⟩ | hgiven
      · rw [if_neg hnone]
        rcases applyGroupOp_ids hop hk with ⟨hg, hnot⟩ | hgiven
        · refine Or.inl ⟨hg, ?_⟩
          rintro ⟨o', ho', hover⟩
          rcases List.mem_cons.mp ho' with rfl | ho'
          · exact hnot hover
          · exact hnone ⟨o', ho', hover⟩
        · exact Or.inr (Or.inl hgiven)
      · exact Or.inr (Or.inr hgiven)

/-! ### Ids as PostgreSQL reads them -/

theorem hexDigit_not_space (n : Fin 16) : isSpace (Uuid.hexDigit n) = false := by
  revert n
  decide

theorem digits_ends (x : Fin 65536) :
    ∃ a cs b, Uuid.digits x = Uuid.hexDigit a :: cs ++ [Uuid.hexDigit b] := ⟨_, [_, _], _, rfl⟩

/-- A UUID is printed without blanks. -/
theorem trimSpace_text (u : Uuid) : trimSpace u.text = u.text := by
  obtain ⟨groups, hlen⟩ := u
  match groups, hlen with
  | [a, b, c, d, e, f, x, y], hlen =>
    obtain ⟨first, cs, p, hfirst⟩ := digits_ends a
    obtain ⟨q, cs', last, hlast⟩ := digits_ends y
    have hchars : (Uuid.text ⟨[a, b, c, d, e, f, x, y], hlen⟩).toList =
        Uuid.hexDigit first :: (cs ++ [Uuid.hexDigit p] ++ (Uuid.digits b ++ '-' :: (Uuid.digits c ++
          '-' :: (Uuid.digits d ++ '-' :: (Uuid.digits e ++ '-' :: (Uuid.digits f ++ Uuid.digits x)))))
          ++ Uuid.hexDigit q :: cs') ++ [Uuid.hexDigit last] := by
      simp [Uuid.text, hfirst, hlast]
    exact trimSpace_eq_self hchars (hexDigit_not_space first) (hexDigit_not_space last)

theorem spelled_text (k : Uuid) : spelled k.text = some k := by
  rw [spelled, trimSpace_text, Uuid.parse_text]

theorem spelled_ne {s : String} {k : Uuid} (h : spelled s = some k) : trimSpace s ≠ "" := by
  intro hs
  rw [spelled, hs] at h
  cases h

/-- What the store is given of a list of ids. -/
def texts (M : List String) : List String :=
  dedupeNonEmpty ((M.map trimSpace).filter fun v => v ≠ "")

theorem mem_texts {t : String} : t ∈ texts M ↔ ∃ s ∈ M, trimSpace s = t ∧ t ≠ "" := by
  rw [texts, mem_dedupeNonEmpty, List.mem_filter, List.mem_map, decide_eq_true_eq]
  constructor
  · rintro ⟨⟨⟨s, hs, rfl⟩, hne⟩, -⟩
    exact ⟨s, hs, rfl, hne⟩
  · rintro ⟨s, hs, rfl, hne⟩
    exact ⟨⟨⟨s, hs, rfl⟩, hne⟩, hne⟩

theorem toStoreGroup_texts (g : Group) : dedupeNonEmpty (toStoreGroup g).members = texts g.ids := by
  rw [texts, Group.ids, List.map_map]
  rfl

theorem mem_texts_trim (hs : s ∈ M) (hne : trimSpace s ≠ "") : trimSpace s ∈ texts M :=
  mem_texts.mpr ⟨s, hs, rfl, hne⟩

/-- The ids come to these UUIDs, each of them in one spelling but for blanks. -/
structure Comes (M : List String) (ks : List Uuid) : Prop where
  parsed : ∀ s ∈ M, trimSpace s ≠ "" → ∃ k ∈ ks, spelled s = some k
  meant : ∀ k ∈ ks, ∃ s ∈ M, spelled s = some k
  once : ∀ k, ∀ s ∈ M, ∀ s' ∈ M, spelled s = some k → spelled s' = some k → trimSpace s = trimSpace s'

variable {ks : List Uuid}

theorem comes_of_parseIDs (hks : parseIDs (texts M) = .ok ks) (hn : ks.Nodup) : Comes M ks := by
  rw [parseIDs_ok] at hks
  refine ⟨fun s hs hne => ?_, fun k hk => ?_, fun k s hs s' hs' hk hk' => ?_⟩
  · have hmem : Uuid.parse (trimSpace s) ∈ (texts M).map Uuid.parse :=
      List.mem_map_of_mem (mem_texts_trim hs hne)
    rw [hks] at hmem
    obtain ⟨k, hk, he⟩ := List.mem_map.mp hmem
    exact ⟨k, hk, he.symm⟩
  · have hmem : some k ∈ ks.map some := List.mem_map_of_mem hk
    rw [← hks] at hmem
    obtain ⟨t, ht, he⟩ := List.mem_map.mp hmem
    obtain ⟨s, hs, rfl, -⟩ := mem_texts.mp ht
    exact ⟨s, hs, he⟩
  · have hparses : ((texts M).map Uuid.parse).Nodup := by
      rw [hks]
      exact hn.map (Option.some_injective _)
    exact List.inj_on_of_nodup_map hparses (mem_texts_trim hs (spelled_ne hk))
      (mem_texts_trim hs' (spelled_ne hk')) (hk.trans hk'.symm)

theorem exists_reading {ids : List String} (h : ∀ i ∈ ids, ∃ k, Uuid.parse i = some k) :
    ∃ ks : List Uuid, ids.map Uuid.parse = ks.map some := by
  induction ids with
  | nil => exact ⟨[], rfl⟩
  | cons i is ih =>
    obtain ⟨k, hk⟩ := h i List.mem_cons_self
    obtain ⟨ks, hks⟩ := ih fun i hi => h i (List.mem_cons_of_mem _ hi)
    exact ⟨k :: ks, by rw [List.map_cons, List.map_cons, hk, hks]⟩

/-- Ids come to no other UUIDs. -/
theorem Comes.agree {ks' : List Uuid} (hc : Comes M ks) (hc' : Comes M ks') (k : Uuid) :
    k ∈ ks ↔ k ∈ ks' := by
  have hmem : ∀ {xs : List Uuid}, Comes M xs → (k ∈ xs ↔ ∃ s ∈ M, spelled s = some k) := by
    intro xs hxs
    refine ⟨hxs.meant k, ?_⟩
    rintro ⟨s, hs, hk⟩
    obtain ⟨k', hk', he⟩ := hxs.parsed s hs (spelled_ne hk)
    cases hk.symm.trans he
    exact hk'
  exact (hmem hc).trans (hmem hc').symm

theorem Comes.parseIDs (hc : Comes M ks) :
    ∃ ks', parseIDs (texts M) = .ok ks' ∧ ks'.Nodup ∧ ∀ k, k ∈ ks' ↔ k ∈ ks := by
  have hall : ∀ t ∈ texts M, ∃ k, Uuid.parse t = some k := by
    intro t ht
    obtain ⟨s, hs, rfl, hne⟩ := mem_texts.mp ht
    obtain ⟨k, -, hk⟩ := hc.parsed s hs hne
    exact ⟨k, hk⟩
  obtain ⟨ks', hks'⟩ := exists_reading hall
  refine ⟨ks', parseIDs_ok.mpr hks', ?_, fun k => ?_⟩
  · have hinj : ((texts M).map Uuid.parse).Nodup := by
      refine List.Nodup.map_on ?_ nodup_dedupeNonEmpty
      intro t ht t' ht' he
      obtain ⟨s, hs, rfl, hne⟩ := mem_texts.mp ht
      obtain ⟨s', hs', rfl, -⟩ := mem_texts.mp ht'
      obtain ⟨k, -, hk⟩ := hc.parsed s hs hne
      exact hc.once k s hs s' hs' hk (he.symm.trans hk)
    rw [hks'] at hinj
    exact List.Nodup.of_map _ hinj
  · have hmem : k ∈ ks' ↔ some k ∈ (texts M).map Uuid.parse := by
      rw [hks', List.mem_map_of_injective (Option.some_injective _)]
    rw [hmem, List.mem_map]
    constructor
    · rintro ⟨t, ht, hk⟩
      obtain ⟨s, hs, rfl, hne⟩ := mem_texts.mp ht
      obtain ⟨k', hk', he⟩ := hc.parsed s hs hne
      cases he.symm.trans hk
      exact hk'
    · intro hk
      obtain ⟨s, hs, he⟩ := hc.meant k hk
      exact ⟨_, mem_texts_trim hs (spelled_ne he), he⟩

/-- Ids that are the same but for the spelling of some come to the same UUIDs. -/
theorem Spelt.comes (h : Spelt P M N) (hc : Comes N ks) : Comes M ks := by
  refine ⟨fun s hs hne => ?_, fun k hk => ?_, fun k s hs s' hs' hspell hspell' => ?_⟩
  · by_cases hloose : Loose P s
    · obtain ⟨k, hk, he⟩ := hloose
      obtain ⟨s', hs', he'⟩ := (h.held k hk).mp ⟨s, hs, he⟩
      obtain ⟨k', hk', he''⟩ := hc.parsed s' hs' (spelled_ne he')
      cases he'.symm.trans he''
      exact ⟨k, hk', he⟩
    · exact hc.parsed s ((h.same s hne hloose).mp hs) hne
  · obtain ⟨s, hs, he⟩ := hc.meant k hk
    by_cases hloose : P k
    · exact (h.held k hloose).mpr ⟨s, hs, he⟩
    · refine ⟨s, (h.same s (spelled_ne he) ?_).mpr hs, he⟩
      rintro ⟨k', hk', he'⟩
      cases he.symm.trans he'
      exact hloose hk'
  · by_cases hloose : P k
    · exact h.once k hloose s hs s' hs' hspell hspell'
    · have hfree : ∀ t, spelled t = some k → ¬ Loose P t := by
        rintro t ht ⟨k', hk', he'⟩
        cases ht.symm.trans he'
        exact hloose hk'
      exact hc.once k s ((h.same s (spelled_ne hspell) (hfree s hspell)).mp hs) s'
        ((h.same s' (spelled_ne hspell') (hfree s' hspell')).mp hs') hspell hspell'

/-- An id is given in another spelling than PostgreSQL's. -/
def Respelt (ids : List String) (k : Uuid) : Prop := ∃ v ∈ ids, spelled v = some k ∧ v ≠ k.text

/-- What is stored of ids and read back differs from them in their spelling only. -/
theorem spelt_stored {ids : List String} (hM : ∀ s ∈ M, (∃ k : Uuid, s = k.text) ∨ s ∈ ids)
    (hc : Comes M ks) (hN : ∀ s, s ∈ N ↔ ∃ k ∈ ks, Uuid.text k = s) : Spelt (Respelt ids) M N := by
  have hcanonical : ∀ s ∈ M, ∀ k, spelled s = some k → ¬ Respelt ids k → s = k.text := by
    intro s hs k hk hfree
    rcases hM s hs with ⟨k', rfl⟩ | hgiven
    · rw [spelled_text] at hk
      cases hk
      rfl
    · by_contra hne
      exact hfree ⟨s, hgiven, hk, hne⟩
  have hheld : ∀ k, (∃ s ∈ M, spelled s = some k) ↔ k ∈ ks := by
    intro k
    constructor
    · rintro ⟨s, hs, hk⟩
      obtain ⟨k', hk', he⟩ := hc.parsed s hs (spelled_ne hk)
      cases hk.symm.trans he
      exact hk'
    · exact hc.meant k
  refine ⟨fun s hne hloose => ⟨fun hs => ?_, fun hs => ?_⟩, fun k _ => ?_, fun k _ => hc.once k⟩
  · obtain ⟨k, hk, he⟩ := hc.parsed s hs hne
    have htext := hcanonical s hs k he fun hfree => hloose ⟨k, hfree, he⟩
    exact (hN s).mpr ⟨k, hk, htext.symm⟩
  · obtain ⟨k, hk, rfl⟩ := (hN s).mp hs
    obtain ⟨s', hs', he⟩ := hc.meant k hk
    have htext := hcanonical s' hs' k he fun hfree => hloose ⟨k, hfree, spelled_text k⟩
    rw [← htext]
    exact hs'
  · rw [hheld]
    constructor
    · intro hk
      exact ⟨k.text, (hN _).mpr ⟨k, hk, rfl⟩, spelled_text k⟩
    · rintro ⟨s, hs, he⟩
      obtain ⟨k', hk', rfl⟩ := (hN s).mp hs
      rw [spelled_text] at he
      cases he
      exact hk'

end Scimage.Scim
