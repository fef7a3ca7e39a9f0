import Scimage.Scim.GroupBatch
import Scimage.Scim.GroupOrder

/-! A PATCH of a group that is sent again. -/
namespace Scimage.Scim

open Txn Engine
open Store (engine Db Env DbError Postgres GroupRow Uuid trimSpace trimSpace_trimSpace)
open Json (Value Ranking)

variable {U : Unicode} {g h g' : Group} {α : Type} {a b a' b' c c' : α}

/-! ### The same change made to two things -/

/-- What a change makes of `a` and `b`: it leaves both alone, or leaves them the same. -/
def Moved (a b a' b' : α) : Prop := (a' = a ∧ b' = b) ∨ a' = b'

theorem Moved.trans (h : Moved a b a' b') (h' : Moved a' b' c c') : Moved a b c c' := by
  rcases h' with ⟨rfl, rfl⟩ | hsame
  · exact h
  · exact Or.inr hsame

theorem moved_foldl {f : Group → α}
    (hone : ∀ (ch : GroupChange) g h, Moved (f g) (f h) (f (ch.run g)) (f (ch.run h)))
    (chs : List GroupChange) (g h : Group) :
    Moved (f g) (f h) (f (chs.foldl (fun g ch => ch.run g) g))
      (f (chs.foldl (fun g ch => ch.run g) h)) := by
  induction chs generalizing g h with
  | nil => exact Or.inl ⟨rfl, rfl⟩
  | cons ch chs ih => exact (hone ch g h).trans (ih (ch.run g) (ch.run h))

theorem displayName_moved (ch : GroupChange) (g h : Group) :
    Moved g.displayName h.displayName (ch.run g).displayName (ch.run h).displayName := by
  cases ch with
  | displayName s => exact Or.inr rfl
  | externalID | add | members | remove => exact Or.inl ⟨rfl, rfl⟩

theorem externalID_moved (ch : GroupChange) (g h : Group) :
    Moved g.externalID h.externalID (ch.run g).externalID (ch.run h).externalID := by
  cases ch with
  | externalID s => exact Or.inr rfl
  | displayName | add | members | remove => exact Or.inl ⟨rfl, rfl⟩

/-- Each id is put among the members, taken from them or left alone, whoever else is a member. -/
theorem member_moved (s : String) (ch : GroupChange) (g h : Group) :
    Moved (s ∈ g.ids) (s ∈ h.ids) (s ∈ (ch.run g).ids) (s ∈ (ch.run h).ids) := by
  cases ch with
  | displayName | externalID => exact Or.inl ⟨rfl, rfl⟩
  | members values => exact Or.inr rfl
  | add values =>
    have hadd : ∀ k : Group, s ∈ (GroupChange.run (.add values) k).ids ↔ s ∈ k.ids ∨ s ∈ values :=
      fun k => mem_addMembers k.members.items values s
    rw [propext (hadd g), propext (hadd h)]
    by_cases hs : s ∈ values
    · exact Or.inr (propext (iff_of_true (Or.inr hs) (Or.inr hs)))
    · exact Or.inl ⟨propext (or_iff_left hs), propext (or_iff_left hs)⟩
  | remove value =>
    have hremove : ∀ k : Group, s ∈ (GroupChange.run (.remove value) k).ids ↔ s ∈ k.ids ∧ s ≠ value :=
      fun k => mem_removeMember k.members.items value s
    rw [propext (hremove g), propext (hremove h)]
    by_cases hs : s = value
    · exact Or.inr (propext (iff_of_false (fun h => h.2 hs) fun h => h.2 hs))
    · exact Or.inl ⟨propext (and_iff_left hs), propext (and_iff_left hs)⟩

/-- Operations that are accepted for a group are the same changes for every group. -/
theorem steps_resolved {sts : List GroupStep} (hok : sts.foldlM (applyGroupStep U) g = .ok g') :
    ∃ chs : List GroupChange, ∀ h, sts.foldlM (applyGroupStep U) h =
      .ok (chs.foldl (fun g ch => ch.run g) h) := by
  induction sts generalizing g with
  | nil => exact ⟨[], fun _ => rfl⟩
  | cons st sts ih =>
    rw [List.foldlM_cons, applyGroupStep_resolve] at hok
    cases hst : resolveGroup U st with
    | error e =>
      rw [hst] at hok
      cases hok
    | ok ch =>
      rw [hst] at hok
      obtain ⟨chs, hchs⟩ := ih hok
      refine ⟨ch :: chs, fun h => ?_⟩
      rw [List.foldlM_cons, applyGroupStep_resolve, hst]
      exact hchs (ch.run h)

/-! ### The group -/

/-- The ids that the operations give are written as they are answered. -/
def AsAnswered (U : Unicode) (os : List (Operation × Ranking)) : Prop :=
  ∀ v ∈ given U os, ∀ k, spelled v = some k → v = Uuid.text k

variable {ops : List (Operation × Ranking)} {sg : Store.Group} {ks : List Uuid}
  {base : String}

/-- The operations on what was stored after they were applied once. -/
theorem applyGroupPatch_again (between : Store.Group) (base' : String) (hplain : AsAnswered U ops)
    (hok : applyGroupPatch U (fromStoreGroup sg base) ops = .ok g) (hvalid : validateGroup g = "")
    (hsg : ∀ s ∈ sg.members, ∃ k : Uuid, s = k.text) (hks : Comes g.ids ks)
    (hname : between.displayName = (toStoreGroup g).displayName)
    (hext : between.externalID = (toStoreGroup g).externalID)
    (hmembers : ∀ s, s ∈ between.members ↔ ∃ k ∈ ks, Uuid.text k = s) :
    ∃ g', applyGroupPatch U (fromStoreGroup between base') ops = .ok g' ∧ validateGroup g' = "" ∧
      (toStoreGroup g').displayName = (toStoreGroup g).displayName ∧
      (toStoreGroup g').externalID = (toStoreGroup g).externalID ∧ Comes g'.ids ks := by
  rw [applyGroupPatch] at hok
  split_ifs at hok with hsome
  have hfrom := fun s => applyOps_ids hok (s := s)
  rw [applyGroupOps_steps] at hok
  obtain ⟨chs, hchs⟩ := steps_resolved hok
  obtain rfl := Except.ok.inj ((hchs (fromStoreGroup sg base)).symm.trans hok)
  have hagain := hchs (fromStoreGroup between base')
  rw [← applyGroupOps_steps] at hagain
  generalize hstart : fromStoreGroup sg base = start at *
  generalize hstart' : fromStoreGroup between base' = start' at *
  have hschemas' := groupSchemas_steps (hchs start')
  have hids : start.ids = sg.members := by rw [← hstart, fromStoreGroup_ids]
  have hids' : start'.ids = between.members := by rw [← hstart', fromStoreGroup_ids]
  have hn := moved_foldl displayName_moved chs start start'
  have hx := moved_foldl externalID_moved chs start start'
  have hm := fun s => moved_foldl (member_moved s) chs start start'
  generalize chs.foldl (fun g ch => ch.run g) start = once at *
  generalize chs.foldl (fun g ch => ch.run g) start' = twice at *
  have hname' : trimSpace twice.displayName = trimSpace once.displayName := by
    rcases hn with ⟨-, hkept⟩ | hsame
    · rw [hkept, ← hstart']
      change trimSpace between.displayName = _
      rw [hname]
      exact trimSpace_trimSpace _
    · rw [hsame]
  have hext' : nonEmpty (trimSpace twice.externalID) = nonEmpty (trimSpace once.externalID) := by
    rcases hx with ⟨-, hkept⟩ | hsame
    · rw [hkept, ← hstart']
      change nonEmpty (trimSpace (between.externalID.getD "")) = _
      rw [hext, toStoreGroup, trimSpace_nonEmpty_getD]
    · rw [hsame]
  -- an id that is in after one time is written as it is stored
  have hwritten : ∀ s ∈ once.ids, ∀ k, spelled s = some k → s = k.text := by
    intro s hs k hk
    rcases hfrom s hs with ⟨hs, -⟩ | hgiven
    · obtain ⟨k', rfl⟩ := hsg s (hids ▸ hs)
      rw [spelled_text] at hk
      cases hk
      rfl
    · exact hplain s hgiven k hk
  have hsame : ∀ s, s ∈ twice.ids ↔ s ∈ once.ids := by
    intro s
    rcases hm s with ⟨honce, htwice⟩ | hsame
    · rw [htwice, hids', hmembers]
      constructor
      · rintro ⟨k, hk, rfl⟩
        obtain ⟨s, hs, hspell⟩ := hks.meant k hk
        exact hwritten s hs k hspell ▸ hs
      · intro hs
        obtain ⟨k, rfl⟩ := hsg s (hids ▸ honce ▸ hs)
        obtain ⟨k', hk', hspell⟩ := hks.parsed _ hs (spelled_ne (spelled_text k))
        rw [spelled_text] at hspell
        cases hspell
        exact ⟨k, hk', rfl⟩
    · rw [hsame]
  refine ⟨twice, by rw [applyGroupPatch, if_neg hsome, hagain], ?_, ?_, ?_, ?_⟩
  · rw [validateGroup_iff] at hvalid ⊢
    refine ⟨?_, ?_⟩
    · rw [hschemas', ← hstart']
      exact List.mem_cons_self
    · rw [NameValid, hname']
      exact hvalid.2
  · simp only [toStoreGroup, hname']
  · simp only [toStoreGroup, hext']
  · refine ⟨fun s hs => hks.parsed s ((hsame s).mp hs), fun k hk => ?_, fun k s hs s' hs' =>
      hks.once k s ((hsame s).mp hs) s' ((hsame s').mp hs')⟩
    obtain ⟨s, hs, hspell⟩ := hks.meant k hk
    exact ⟨s, (hsame s).mpr hs, hspell⟩

/-! ### The request -/

section Requests

open Store (scanGroup groupConflict)

variable {pg : Postgres} {db : Db} {r : Request} {first second : Nat → Supply Env DbError}
  {H : Handler}

end Requests

end Scimage.Scim
