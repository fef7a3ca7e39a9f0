import Scimage.Aria.Briefing
import Scimage.Console.Days
import Scimage.Console.Narrative
import Scimage.Lib.Framing
import Mathlib.Logic.Function.Basic

/-! The briefings that the console keeps, and whose they are. -/
namespace Scimage.Console

open Aria (Report Location)
open Scim (Bytes)
open Store (Time Duration AuditRow trimSpace isSpace)

/-! ### The cache -/

structure NarrativeEntry where
  text : Bytes
  generatedAt : Time

/-- `narrativeCache`. -/
structure NarrativeCache where
  items : String → Option NarrativeEntry

def newNarrativeCache : NarrativeCache := ⟨fun _ => none⟩

def NarrativeCache.get (c : NarrativeCache) (key : String) : Option NarrativeEntry := c.items key

def NarrativeCache.put (c : NarrativeCache) (key : String) (text : Bytes) (now : Time) :
    NarrativeCache :=
  ⟨Function.update c.items key (some ⟨text, now⟩)⟩

def nul : Char := Char.ofNat 0

def narrativeKey (tenantID since : String) : String := tenantID ++ String.ofList [nul] ++ since

/-! ### The page and the button -/

/-- What the page and the button both start from. -/
structure AriaInputs where
  tenantID : String
  since : String
  report : Report

section

-- `time.ParseDuration`
variable (parseDuration : String → Option Duration)

/-- `ariaInputs`, with the form's values. -/
def ariaInputs (loc : Location) (log : List AuditRow) (tenantID since : String) (now : Time) :
    AriaInputs :=
  let window := parseWindow parseDuration since
  let (since, window) := if window = 0 then ("24h", 24 * hour) else (since, window)
  ⟨tenantID, since, Aria.ariaInputs log tenantID window now loc⟩

end

/-- What the page says of the briefing. -/
structure AriaData where
  selectedTenant : String
  selectedSince : String
  report : Report
  narrative : Option (Bytes × Time)
  narrativeError : String

def NarrativeCache.assemble (c : NarrativeCache) (i : AriaInputs) (narrativeErr : String) : AriaData :=
  ⟨i.tenantID, i.since, i.report,
    (c.get (narrativeKey i.tenantID i.since)).map fun e => (renderNarrative e.text, e.generatedAt),
    narrativeErr⟩

def unavailable : String := "Couldn't generate a briefing. The LLM is currently unavailable."

/-! ### Requests at once -/

/-- How far a request has come. -/
inductive Progress where
  | idle
  /-- The button, before it looks into the cache. -/
  | looking (i : AriaInputs) (force : Bool)
  | calling (i : AriaInputs)
  | storing (i : AriaInputs) (text : Bytes)
  | responding (i : AriaInputs) (narrativeErr : String)

/-- What has been done, in its order. -/
inductive Deed where
  | called (i : AriaInputs) (force : Bool)
  | answered (i : AriaInputs) (text : Bytes)
  | kept (i : AriaInputs) (text : Bytes) (now : Time)
  | shown (data : AriaData)

/-- The console's pages and buttons, `ι` of them at once. -/
structure Desk (ι : Type) where
  cache : NarrativeCache
  progress : ι → Progress
  deeds : List Deed

variable {ι : Type}

def Desk.start : Desk ι := ⟨newNarrativeCache, fun _ => .idle, []⟩

inductive DeskEvent (ι : Type) where
  | page (k : ι) (log : List AuditRow) (tenantID since : String) (now : Time)
  | narrate (k : ι) (log : List AuditRow) (tenantID since : String) (force : Bool) (now : Time)
  | look (k : ι)
  | reply (k : ι) (text : Bytes)
  | outage (k : ι)
  | store (k : ι) (now : Time)
  | respond (k : ι)

section

variable [DecidableEq ι] (parseDuration : String → Option Duration) (loc : Location)

def Desk.goes (s : Desk ι) (k : ι) (p : Progress) : Desk ι :=
  { s with progress := Function.update s.progress k p }

def Desk.does (s : Desk ι) (d : Deed) : Desk ι := { s with deeds := s.deeds ++ [d] }

/-- One step of one request. The cache is looked into and written under its mutex; the model is
called without it. -/
def Desk.step (s : Desk ι) : DeskEvent ι → Option (Desk ι)
  | .page k log tenantID since now =>
    match s.progress k with
    | .idle => some (s.goes k (.responding (ariaInputs parseDuration loc log tenantID since now) ""))
    | _ => none
  | .narrate k log tenantID since force now =>
    let i := ariaInputs parseDuration loc log tenantID since now
    match s.progress k with
    | .idle => some (s.goes k (if i.report.flags = [] then .responding i "" else .looking i force))
    | _ => none
  | .look k =>
    match s.progress k with
    | .looking i force =>
      if force = false ∧ (s.cache.get (narrativeKey i.tenantID i.since)).isSome then
        some (s.goes k (.responding i ""))
      else some ((s.does (.called i force)).goes k (.calling i))
    | _ => none
  | .reply k text =>
    match s.progress k with
    | .calling i => some ((s.does (.answered i text)).goes k (.storing i text))
    | _ => none
  | .outage k =>
    match s.progress k with
    | .calling i => some (s.goes k (.responding i unavailable))
    | _ => none
  | .store k now =>
    match s.progress k with
    | .storing i text =>
      let cache := s.cache.put (narrativeKey i.tenantID i.since) text now
      some (({ s with cache }.does (.kept i text now)).goes k (.responding i ""))
    | _ => none
  | .respond k =>
    match s.progress k with
    | .responding i e => some ((s.does (.shown (s.cache.assemble i e))).goes k .idle)
    | _ => none

inductive Desks : Desk ι → Prop where
  | start : Desks .start
  | step {s s' : Desk ι} {e : DeskEvent ι} : Desks s → s.step parseDuration loc e = some s' → Desks s'

end

/-! ### Keys -/

theorem mem_dropWhile {α : Type} {p : α → Bool} {c : α} {l : List α} (hp : p c = false) (hc : c ∈ l) :
    c ∈ l.dropWhile p := by
  rw [← List.takeWhile_append_dropWhile (p := p) (l := l)] at hc
  rcases List.mem_append.mp hc with hc | hc
  · rw [List.mem_takeWhile_imp hc] at hp
    cases hp
  · exact hc

theorem mem_trimSpace {c : Char} {s : String} (hp : isSpace c = false) (hc : c ∈ s.toList) :
    c ∈ (trimSpace s).toList := by
  rw [Store.trimSpace_toList, List.rdropWhile]
  exact List.mem_reverse.mpr (mem_dropWhile hp (List.mem_reverse.mpr (mem_dropWhile hp hc)))

theorem mem_cutDays {c : Char} {s text : String} (h : cutDays s = some text) (hd : c ≠ 'd')
    (hc : c ∈ s.toList) : c ∈ text.toList := by
  unfold cutDays at h
  split at h
  · rename_i hlast
    obtain rfl := Option.some.inj h
    rw [← List.dropLast_append_getLast? 'd' hlast] at hc
    rw [String.toList_ofList]
    rcases List.mem_append.mp hc with hc | hc
    · exact hc
    · exact (hd (List.mem_singleton.mp hc)).elim
  · cases h

theorem nul_notMem_numeral {cs : List Char} (h : Decimal.Numeral cs) : nul ∉ cs := by
  intro hc
  rcases h nul hc with hc | hc | hc <;> exact absurd hc (by decide)

section

variable {parseDuration : String → Option Duration} {loc : Location}

/-- A window that is read has no separator in it. -/
theorem nul_notMem_window (hnul : ∀ s, nul ∈ s.toList → parseDuration s = none) {value : String}
    (h : parseWindow parseDuration value ≠ 0) : nul ∉ value.toList := by
  intro hc
  have hs := mem_trimSpace (by decide) hc
  apply h
  simp only [parseWindow]
  split
  · rfl
  · split
    · rename_i text htext
      have htext := mem_cutDays htext (by decide) hs
      split
      · rfl
      · rename_i n hn
        exact (nul_notMem_numeral (Decimal.numeral_of_parse hn) htext).elim
    · rw [hnul _ hs]

theorem nul_notMem_since (hnul : ∀ s, nul ∈ s.toList → parseDuration s = none) (log : List AuditRow)
    (tenantID since : String) (now : Time) :
    nul ∉ (ariaInputs parseDuration loc log tenantID since now).since.toList := by
  unfold ariaInputs
  by_cases h : parseWindow parseDuration since = 0
  · simp only [h, if_true]
    decide
  · simp only [h, if_false]
    exact nul_notMem_window hnul h

/-- A tenant may be any text: the key is cut at its last separator. -/
theorem narrativeKey_injective {t t' since since' : String} (h : nul ∉ since.toList)
    (h' : nul ∉ since'.toList) (heq : narrativeKey t since = narrativeKey t' since') :
    t = t' ∧ since = since' := by
  have hlist := congrArg String.toList heq
  simp only [narrativeKey, String.toList_append, String.toList_ofList, List.append_assoc] at hlist
  obtain ⟨ht, hs⟩ := Framing.append_sep_inj_last h h' hlist
  exact ⟨String.toList_inj.mp ht, String.toList_inj.mp hs⟩

/-! ### What is kept -/

def Deed.keeps (tenantID since : String) : Deed → Option (Bytes × Time)
  | .kept i text now => if i.tenantID = tenantID ∧ i.since = since then some (text, now) else none
  | _ => none

/-- The briefing that was kept last for a tenant and a window. -/
def keptFor (tenantID since : String) (deeds : List Deed) : Option (Bytes × Time) :=
  (deeds.filterMap (Deed.keeps tenantID since)).getLast?

theorem keptFor_snoc (tenantID since : String) (deeds : List Deed) (d : Deed) :
    keptFor tenantID since (deeds ++ [d]) = (d.keeps tenantID since).or (keptFor tenantID since deeds) := by
  rw [keptFor, List.filterMap_append]
  cases hd : d.keeps tenantID since with
  | none => simp [hd, keptFor]
  | some x => simp [hd]

/-- What may be done after `before`. -/
def Deed.Fits (before : List Deed) : Deed → Prop
  | .called i force => i.report.flags ≠ [] ∧ (force = false → keptFor i.tenantID i.since before = none)
  | .answered i _ => ∃ force, .called i force ∈ before
  | .kept i text _ => .answered i text ∈ before
  | .shown data => data.narrative = (keptFor data.selectedTenant data.selectedSince before).map
      fun x => (renderNarrative x.1, x.2)

def Progress.Fits (before : List Deed) : Progress → Prop
  | .idle => True
  | .looking i _ => nul ∉ i.since.toList ∧ i.report.flags ≠ []
  | .calling i => nul ∉ i.since.toList ∧ ∃ force, .called i force ∈ before
  | .storing i text => nul ∉ i.since.toList ∧ .answered i text ∈ before
  | .responding i _ => nul ∉ i.since.toList

theorem Progress.Fits.mono {before : List Deed} {p : Progress} (h : p.Fits before) (d : Deed) :
    p.Fits (before ++ [d]) := by
  cases p with
  | calling i => exact ⟨h.1, h.2.imp fun _ hc => List.mem_append_left _ hc⟩
  | storing i text => exact ⟨h.1, List.mem_append_left _ h.2⟩
  | _ => exact h

structure Orderly (s : Desk ι) : Prop where
  cache : ∀ tenantID since, nul ∉ since.toList →
    (s.cache.get (narrativeKey tenantID since)).map (fun e => (e.text, e.generatedAt)) =
      keptFor tenantID since s.deeds
  progress : ∀ k, (s.progress k).Fits s.deeds
  deeds : ∀ before d after, s.deeds = before ++ d :: after → d.Fits before

theorem forall_snoc {δ : Type} {P : List δ → δ → Prop} {ds : List δ} {d : δ}
    (h : ∀ before x after, ds = before ++ x :: after → P before x) (hd : P ds d) :
    ∀ before x after, ds ++ [d] = before ++ x :: after → P before x := by
  intro before x after heq
  rcases List.eq_nil_or_concat after with rfl | ⟨after, y, rfl⟩
  · obtain ⟨rfl, hx⟩ := List.append_inj' heq rfl
    cases hx
    exact hd
  · have hinit : ds ++ [d] = (before ++ x :: after) ++ [y] := by simpa using heq
    exact h before x after (List.append_inj' hinit rfl).1

variable {s s' : Desk ι}

theorem Orderly.goes [DecidableEq ι] (h : Orderly s) (k : ι) {p : Progress} (hp : p.Fits s.deeds) :
    Orderly (s.goes k p) where
  cache := h.cache
  progress j := by
    by_cases hj : j = k
    · subst hj
      simpa [Desk.goes] using hp
    · simpa [Desk.goes, hj] using h.progress j
  deeds := h.deeds

/-- A deed that keeps nothing. -/
theorem Orderly.does (h : Orderly s) {d : Deed} (hd : d.Fits s.deeds) (hnone : ∀ t w, d.keeps t w = none) :
    Orderly (s.does d) where
  cache t w hw := by
    rw [Desk.does, keptFor_snoc, hnone, Option.none_or]
    exact h.cache t w hw
  progress k := (h.progress k).mono d
  deeds := forall_snoc h.deeds hd

theorem Orderly.stores (h : Orderly s) {i : AriaInputs} {text : Bytes} (now : Time)
    (hi : nul ∉ i.since.toList) (hd : .answered i text ∈ s.deeds) :
    Orderly ({ s with cache := s.cache.put (narrativeKey i.tenantID i.since) text now }.does
      (.kept i text now)) where
  cache t w hw := by
    rw [Desk.does, keptFor_snoc, Deed.keeps, NarrativeCache.get, NarrativeCache.put]
    by_cases hkey : i.tenantID = t ∧ i.since = w
    · obtain ⟨rfl, rfl⟩ := hkey
      simp
    · have hne : narrativeKey t w ≠ narrativeKey i.tenantID i.since := by
        intro heq
        obtain ⟨ht, hs⟩ := narrativeKey_injective hw hi heq
        exact hkey ⟨ht.symm, hs.symm⟩
      rw [if_neg hkey, Option.none_or, ← h.cache t w hw]
      exact congrArg _ (Function.update_of_ne hne _ _)
  progress k := (h.progress k).mono _
  deeds := forall_snoc h.deeds hd

variable [DecidableEq ι]

theorem orderly_step (hnul : ∀ s, nul ∈ s.toList → parseDuration s = none) (h : Orderly s) {e : DeskEvent ι}
    (hs : s.step parseDuration loc e = some s') : Orderly s' := by
  cases e with
  | page k log tenantID since now =>
    simp only [Desk.step] at hs
    split at hs
    · obtain rfl := Option.some.inj hs
      exact h.goes k (nul_notMem_since hnul log tenantID since now)
    · cases hs
  | narrate k log tenantID since force now =>
    have hsince : nul ∉ (ariaInputs parseDuration loc log tenantID since now).since.toList :=
      nul_notMem_since hnul log tenantID since now
    simp only [Desk.step] at hs
    split at hs
    · obtain rfl := Option.some.inj hs
      refine h.goes k ?_
      split
      · exact hsince
      · exact ⟨hsince, ‹_›⟩
    · cases hs
  | look k =>
    have hp := h.progress k
    simp only [Desk.step] at hs
    split at hs
    · rename_i i force hlooking
      rw [hlooking] at hp
      split at hs
      · obtain rfl := Option.some.inj hs
        exact h.goes k hp.1
      · rename_i hmiss
        obtain rfl := Option.some.inj hs
        have hfits : (Deed.called i force).Fits s.deeds := by
          refine ⟨hp.2, fun hforce => ?_⟩
          rw [← h.cache _ _ hp.1, Option.map_eq_none_iff, ← Option.not_isSome_iff_eq_none]
          exact fun hkept => hmiss ⟨hforce, hkept⟩
        exact (h.does hfits fun _ _ => rfl).goes k ⟨hp.1, force, List.mem_append_right _ List.mem_cons_self⟩
    · cases hs
  | reply k text =>
    have hp := h.progress k
    simp only [Desk.step] at hs
    split at hs
    · rename_i i hcalling
      rw [hcalling] at hp
      obtain rfl := Option.some.inj hs
      have hanswered : (Deed.answered i text).Fits s.deeds := hp.2
      exact (h.does hanswered fun _ _ => rfl).goes k
        ⟨hp.1, List.mem_append_right _ List.mem_cons_self⟩
    · cases hs
  | outage k =>
    have hp := h.progress k
    simp only [Desk.step] at hs
    split at hs
    · rename_i i hcalling
      rw [hcalling] at hp
      obtain rfl := Option.some.inj hs
      exact h.goes k hp.1
    · cases hs
  | store k now =>
    have hp := h.progress k
    simp only [Desk.step] at hs
    split at hs
    · rename_i i text hstoring
      rw [hstoring] at hp
      obtain rfl := Option.some.inj hs
      exact (h.stores now hp.1 hp.2).goes k hp.1
    · cases hs
  | respond k =>
    have hp := h.progress k
    simp only [Desk.step] at hs
    split at hs
    · rename_i i err hresponding
      rw [hresponding] at hp
      obtain rfl := Option.some.inj hs
      have hshown : (Deed.shown (s.cache.assemble i err)).Fits s.deeds := by
        change _ = (keptFor i.tenantID i.since s.deeds).map _
        rw [← h.cache _ _ hp, Option.map_map]
        rfl
      exact (h.does hshown fun _ _ => rfl).goes k trivial
    · cases hs

theorem desks_orderly (hnul : ∀ s, nul ∈ s.toList → parseDuration s = none)
    (h : Desks parseDuration loc s) : Orderly s := by
  induction h with
  | start => exact ⟨fun _ _ _ => rfl, fun _ => trivial, fun before d after h => by simp [Desk.start] at h⟩
  | step _ hs ih => exact orderly_step hnul ih hs

theorem desks_foldl {es : List (DeskEvent ι)} (h : Desks parseDuration loc s)
    (hs : es.foldlM (Desk.step parseDuration loc) s = some s') : Desks parseDuration loc s' := by
  induction es generalizing s with
  | nil =>
    obtain rfl := Option.some.inj hs
    exact h
  | cons e es ih =>
    obtain ⟨t, ht, hs⟩ := Option.bind_eq_some_iff.mp hs
    exact ih (h.step ht) hs

end

def weekendCall : AuditRow :=
  ⟨0, 0, "acme", .user, "key", none, .replace, .success, none, none, none, none⟩

/-- Two operators press the button at once, and one of them looks after the other's answer is kept. -/
def deskEvents : List (DeskEvent Bool) :=
  [.narrate true [weekendCall] "acme" "7d" false 0, .narrate false [weekendCall] "acme" "7d" false 0,
    .look true, .reply true [104, 105], .store true 5, .look false, .respond false, .respond true]

theorem desk_run : ∃ s : Desk Bool, deskEvents.foldlM (Desk.step noDuration Aria.weekend) .start = some s ∧
    ∃ i data before, s.deeds = before ++ .shown data :: [] ∧ before.head? = some (.called i false) ∧
      data.narrative = some ([104, 105], 5) :=
  ⟨_, rfl, _, _, [_, _, _, _], rfl, rfl, rfl⟩

end Scimage.Console
