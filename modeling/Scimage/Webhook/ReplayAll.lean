import Scimage.Webhook.Lifecycle

/-! An operator's `webhook replay-all` beside dispatchers, mutations and other operators. -/
namespace Scimage.Webhook

open Txn Store

/-- Where the loop of `replay-all` is. -/
inductive Loop where
  | querying
  /-- A page whose next letter is `d`. -/
  | replaying (d : Delivery) (letters : List Delivery)
  | ended
  /-- The delivery was not found among the parked ones. -/
  | failed (id : Nat)
  /-- The database did not answer. -/
  | broken

/-- What is left of the page. -/
def Loop.letters : Loop → List Delivery
  | .replaying d letters => d :: letters
  | _ => []

def Loop.running : Loop → Bool
  | .querying | .replaying .. => true
  | _ => false

/-- Back to the query once the page is through. -/
def Loop.next : List Delivery → Loop
  | [] => .querying
  | d :: letters => .replaying d letters

@[simp] theorem letters_next (letters : List Delivery) : (Loop.next letters).letters = letters := by
  cases letters <;> rfl

theorem running_next (letters : List Delivery) : (Loop.next letters).running = true := by
  cases letters <;> rfl

/-- A pass over the parked deliveries, and the system around it. -/
structure Pass (ι : Type) where
  system : State ι
  loop : Loop
  /-- What it has replayed, the latest first. -/
  replayed : List Nat
  /-- Pages asked for. -/
  queries : Nat

inductive Act (ι : Type) where
  /-- A dispatcher, a mutation, another operator or time. -/
  | around (e : Event ι)
  | query
  | replay (started : Time)
  /-- The statement fails; what it was to do may have been committed. -/
  | crash (committed : Option Time)

variable {ι : Type} [DecidableEq ι]

def Pass.start (s : State ι) : Pass ι := ⟨s, .querying, [], 0⟩

/-- The page that the loop works on next. -/
def Pass.page (p : Pass ι) : List Delivery := deadLetters maxPageSize p.system.rows

/-- The steps of one pass, with those of the system between its statements. -/
inductive PassStep (ds : ι → Dispatcher) (p : Pass ι) : Act ι → Pass ι → Prop where
  | around {e : Event ι} {t : State ι} (hs : Step ds p.system e t) :
    PassStep ds p (.around e) { p with system := t }
  | page {d : Delivery} {letters : List Delivery} (hl : p.loop = .querying)
      (hpage : p.page = d :: letters) :
    PassStep ds p .query { p with loop := .replaying d letters, queries := p.queries + 1 }
  | empty (hl : p.loop = .querying) (hpage : p.page = []) :
    PassStep ds p .query { p with loop := .ended, queries := p.queries + 1 }
  | replay {started : Time} {d : Delivery} {letters : List Delivery} {t : State ι}
      (hl : p.loop = .replaying d letters) (hs : Step ds p.system (.replay started d.id) t) :
    PassStep ds p (.replay started) ⟨t, .next letters, d.id :: p.replayed, p.queries⟩
  /-- `ErrNotFound` ends the pass. -/
  | missing (started : Time) {d : Delivery} {letters : List Delivery}
      (hl : p.loop = .replaying d letters)
      (hno : ∀ r ∈ p.system.rows, r.id = d.id → r.status ≠ .deadLetter) :
    PassStep ds p (.replay started) { p with loop := .failed d.id }
  | crash (hl : p.loop.running = true) : PassStep ds p (.crash none) { p with loop := .broken }
  | unanswered {started : Time} {d : Delivery} {letters : List Delivery} {t : State ι}
      (hl : p.loop = .replaying d letters) (hs : Step ds p.system (.replay started d.id) t) :
    PassStep ds p (.crash (some started)) ⟨t, .broken, d.id :: p.replayed, p.queries⟩

/-- The states of a pass that begins at `s` and whose steps all meet the condition `G`. -/
inductive PassRun (ds : ι → Dispatcher) (G : Pass ι → Act ι → Prop) (s : State ι) : Pass ι → Prop where
  | start : PassRun ds G s (.start s)
  | step {p q : Pass ι} {a : Act ι} (h : PassRun ds G s p) (hg : G p a) (hs : PassStep ds p a q) :
    PassRun ds G s q

/-! ### What a step of the system does to a parked delivery -/

/-- The row is there and waits for an operator. -/
def Parked (s : State ι) (id : Nat) : Prop := ∃ r ∈ s.rows, r.id = id ∧ r.status = .deadLetter

variable {ds : ι → Dispatcher} {s t : State ι} {e : Event ι} {id : Nat}

/-- A dispatcher is about to park a delivery that waits in the queue. -/
def Parks (s : State ι) (i : ι) (id : Nat) : Prop :=
  (∃ b del cause todo, s.phase i = .reporting b del (.deadLetter cause) todo ∧ del.id = id) ∧
    ∃ r ∈ s.rows, r.id = id ∧ r.status = .pending

theorem parked_stays (hs : Step ds s e t) (hi : Orderly s) (hp : Parked s id) :
    Parked t id ∨ ∃ started, e = .replay started id := by
  obtain ⟨r, hr, rfl, hdead⟩ := hp
  rcases step_keeps hs hr with ⟨r', hr', hid⟩ | ⟨i, now, rfl, hdelivered, -⟩
  · obtain ⟨x, hx, hrow⟩ := step_old hs hi hr' (hid ▸ hi.enqueued r hr)
    obtain rfl := List.inj_on_of_nodup_map hi.nodup hx hr (hrow.id_eq.symm.trans hid)
    cases hrow with
    | same => exact Or.inl ⟨_, hr', rfl, hdead⟩
    | claimed he hdue htaken => exact Or.inl ⟨_, hr', rfl, hdead⟩
    | reported hphase hdel hpending =>
      rw [hdead] at hpending
      cases hpending
    | requeued => exact Or.inr ⟨_, rfl⟩
  · rw [hdead] at hdelivered
    cases hdelivered

theorem parked_comes (hs : Step ds s e t) (hi : Orderly s) (hp : Parked t id) :
    Parked s id ∨ ∃ i, e = .report i ∧ Parks s i id := by
  obtain ⟨r', hr', rfl, hdead⟩ := hp
  rcases step_row hs hi.nodup hr' with ⟨_, _, _, _, _, _, rfl, rfl⟩ | ⟨r, hr, hrow⟩
  · cases hdead
  · cases hrow with
    | same => exact Or.inl ⟨r', hr, rfl, hdead⟩
    | claimed he hdue htaken => exact Or.inl ⟨r, hr, rfl, hdead⟩
    | @reported i b del report todo _ hphase hid hpending =>
      cases report with
      | delivered => cases hdead
      | reschedule cause at' =>
        rw [Report.set, rescheduled, hpending] at hdead
        cases hdead
      | deadLetter cause =>
        exact Or.inr ⟨i, rfl, ⟨b, del, cause, todo, hphase, hid.symm⟩, r, hr, rfl, hpending⟩
    | requeued => cases hdead

theorem replay_unparks {started : Time} (hs : Step ds s (.replay started id) t) : ¬ Parked t id := by
  rintro ⟨r', hr', hid, hdead⟩
  cases hs with
  | replay _ hmem hrow hwas =>
    obtain ⟨r, hr, rfl⟩ := mem_updateWhere.mp hr'
    split at hdead
    · cases hdead
    · rename_i hnot
      rw [if_neg hnot] at hid
      exact hnot (by simp [hid, hdead])

/-- The step that replays a delivery says so. -/
theorem replay_noted {started : Time} (hs : Step ds s (.replay started id) t) :
    t.log = s.log ++ [.replayed id] := by
  cases hs with
  | replay => rfl

/-! ### A pass that nobody disturbs -/

/-- The delivery has been replayed since `s`, by the pass or by another operator. -/
def ReplayedSince (s t : State ι) (id : Nat) : Prop := .replayed id ∈ t.log.drop s.log.length

/-- No dispatcher parks what the pass has replayed or what was queued after it began, and no
other operator replays a letter of its page. -/
def Undisturbed (s : State ι) (p : Pass ι) : Act ι → Prop
  | .around (.report i) =>
    ∀ id, Parks p.system i id → id ∈ s.rows.map DeliveryRow.id ∧ id ∉ p.replayed
  | .around (.replay _ id) => id ∉ p.loop.letters.map Delivery.id
  | _ => True

/-- What `replay-all` is for, in a state of a pass that began at `s`. -/
structure OnePass (ds : ι → Dispatcher) (s : State ι) (p : Pass ι) : Prop where
  once : p.replayed.Nodup
  finite : p.replayed.length ≤ s.rows.length ∧ p.queries ≤ s.rows.length + 1
  goesOn : p.loop.running = true →
    (∃ q, PassStep ds p .query q) ∨ ∀ started, ∃ q, PassStep ds p (.replay started) q
  complete : p.loop ≠ .broken → p.loop.running = false → ∀ id, Parked s id →
    ReplayedSince s p.system id

structure Steady (s : State ι) (p : Pass ι) : Prop where
  orderly : Orderly p.system
  grown : s.log <+: p.system.log
  fresh : ∀ id, Parked p.system id → id ∈ s.rows.map DeliveryRow.id ∧ id ∉ p.replayed
  known : ∀ id ∈ p.replayed, id ∈ s.rows.map DeliveryRow.id
  once : p.replayed.Nodup
  distinct : (p.loop.letters.map Delivery.id).Nodup
  waiting : ∀ d ∈ p.loop.letters, Parked p.system d.id
  asked : p.queries ≤ p.replayed.length + 1
  asking : p.loop = .querying → p.queries ≤ p.replayed.length
  owed : ∀ id, Parked s id → ReplayedSince s p.system id ∨ Parked p.system id
  complete : p.loop = .ended → ∀ id, Parked s id → ReplayedSince s p.system id
  found : ∀ id, p.loop ≠ .failed id

variable {p q : Pass ι} {a : Act ι} {u : State ι}

omit [DecidableEq ι] in
theorem ReplayedSince.mono (h : ReplayedSince s t id) (hgrown : s.log <+: t.log)
    (hmore : t.log <+: u.log) : ReplayedSince s u id := by
  obtain ⟨more, hmore⟩ := hmore
  rw [ReplayedSince, ← hmore, List.drop_append_of_le_length hgrown.length_le]
  exact List.mem_append_left _ h

theorem replayedSince_of_replay {started : Time} (hgrown : s.log <+: t.log)
    (hs : Step ds t (.replay started id) u) : ReplayedSince s u id := by
  rw [ReplayedSince, replay_noted hs, List.drop_append_of_le_length hgrown.length_le]
  exact List.mem_append_right _ (List.mem_singleton_self _)

/-- What was owed is still owed after a step of the system, or has been replayed by it. -/
theorem still_owed (hi : Steady s p) (hs : Step ds p.system e t) :
    ∀ id, Parked s id → ReplayedSince s t id ∨ Parked t id := by
  intro id hparked
  rcases hi.owed id hparked with hdone | hwaits
  · exact Or.inl (hdone.mono hi.grown (log_grows hs))
  · rcases parked_stays hs hi.orderly hwaits with hstays | ⟨started, rfl⟩
    · exact Or.inr hstays
    · exact Or.inl (replayedSince_of_replay hi.grown hs)

omit [DecidableEq ι] in
theorem steady_start (hi : Orderly s) : Steady s (.start s) where
  orderly := hi
  grown := List.prefix_refl _
  fresh := by
    rintro id ⟨r, hr, rfl, -⟩
    exact ⟨List.mem_map_of_mem hr, List.not_mem_nil⟩
  known := by simp [Pass.start]
  once := List.nodup_nil
  distinct := List.nodup_nil
  waiting := by simp [Pass.start, Loop.letters]
  asked := Nat.zero_le _
  asking _ := Nat.le_refl _
  owed _ h := Or.inr h
  complete h := by cases h
  found _ h := by cases h

theorem steady_around (hi : Steady s p) (hg : Undisturbed s p (.around e))
    (hs : Step ds p.system e t) : Steady s { p with system := t } where
  orderly := orderly_step hs hi.orderly
  grown := hi.grown.trans (log_grows hs)
  fresh := by
    intro id hparked
    rcases parked_comes hs hi.orderly hparked with hwas | ⟨i, rfl, hparks⟩
    · exact hi.fresh id hwas
    · exact hg id hparks
  known := hi.known
  once := hi.once
  distinct := hi.distinct
  waiting := by
    intro d hd
    rcases parked_stays hs hi.orderly (hi.waiting d hd) with hstays | ⟨started, rfl⟩
    · exact hstays
    · exact absurd (List.mem_map_of_mem hd) hg
  asked := hi.asked
  asking := hi.asking
  owed := still_owed hi hs
  complete hended id hparked := (hi.complete hended id hparked).mono hi.grown (log_grows hs)
  found := hi.found

omit [DecidableEq ι] in
theorem steady_page {d : Delivery} {letters : List Delivery} (hi : Steady s p)
    (hl : p.loop = .querying) (hpage : p.page = d :: letters) :
    Steady s { p with loop := .replaying d letters, queries := p.queries + 1 } where
  orderly := hi.orderly
  grown := hi.grown
  fresh := hi.fresh
  known := hi.known
  once := hi.once
  distinct := by
    change ((d :: letters).map Delivery.id).Nodup
    rw [← hpage]
    exact deadLetters_nodup hi.orderly.nodup
  waiting := by
    intro x hx
    exact deadLetters_of_mem (hpage ▸ hx : x ∈ p.page)
  asked := Nat.succ_le_succ (hi.asking hl)
  asking h := by cases h
  owed := hi.owed
  complete h := by cases h
  found _ h := by cases h

omit [DecidableEq ι] in
theorem steady_empty (hi : Steady s p) (hl : p.loop = .querying) (hpage : p.page = []) :
    Steady s { p with loop := .ended, queries := p.queries + 1 } where
  orderly := hi.orderly
  grown := hi.grown
  fresh := hi.fresh
  known := hi.known
  once := hi.once
  distinct := List.nodup_nil
  waiting := by simp [Loop.letters]
  asked := Nat.succ_le_succ (hi.asking hl)
  asking h := by cases h
  owed := hi.owed
  complete := by
    intro _ id hparked
    rcases hi.owed id hparked with hdone | ⟨r, hr, -, hdead⟩
    · exact hdone
    · exact absurd hdead (deadLetters_eq_nil hpage r hr)
  found _ h := by cases h

/-- The pass replays its next letter, whatever it does afterwards. -/
theorem steady_replay {started : Time} {d : Delivery} {letters : List Delivery} {loop : Loop}
    (hi : Steady s p) (hl : p.loop = .replaying d letters)
    (hs : Step ds p.system (.replay started d.id) t) (hnext : loop = .next letters ∨ loop = .broken) :
    Steady s ⟨t, loop, d.id :: p.replayed, p.queries⟩ := by
  have hletters : p.loop.letters = d :: letters := by rw [hl, Loop.letters]
  have hparked : Parked p.system d.id := hi.waiting d (hletters ▸ List.mem_cons_self)
  have hfresh := hi.fresh d.id hparked
  have hdistinct := hi.distinct
  rw [hletters, List.map_cons, List.nodup_cons] at hdistinct
  have hrest : loop.letters = letters ∨ loop.letters = [] := by
    rcases hnext with rfl | rfl
    · exact Or.inl (letters_next _)
    · exact Or.inr rfl
  refine ⟨orderly_step hs hi.orderly, hi.grown.trans (log_grows hs), ?_, ?_,
    List.nodup_cons.mpr ⟨hfresh.2, hi.once⟩, ?_, ?_, ?_, ?_, still_owed hi hs, ?_, ?_⟩
  · intro id hcomes
    rcases parked_comes hs hi.orderly hcomes with hwas | ⟨i, he, -⟩
    · have hne : id ≠ d.id := fun he => replay_unparks hs (he ▸ hcomes)
      obtain ⟨hknown, hnot⟩ := hi.fresh id hwas
      exact ⟨hknown, List.not_mem_cons_of_ne_of_not_mem hne hnot⟩
    · cases he
  · intro id hid
    rcases List.mem_cons.mp hid with rfl | hid
    · exact hfresh.1
    · exact hi.known id hid
  · rcases hrest with hrest | hrest
    · simpa only [hrest] using hdistinct.2
    · simp [hrest]
  · intro x hx
    have hmem : x ∈ letters := by
      rcases hrest with hrest | hrest
      · exact hrest ▸ hx
      · simp [hrest] at hx
    rcases parked_stays hs hi.orderly (hi.waiting x (hletters ▸ List.mem_cons_of_mem _ hmem)) with
      hstays | ⟨started', he⟩
    · exact hstays
    · have hid : d.id = x.id := by injection he
      rw [hid] at hdistinct
      exact absurd (List.mem_map_of_mem hmem) hdistinct.1
  · exact Nat.le_succ_of_le hi.asked
  · intro _
    exact hi.asked
  · rintro rfl
    rcases hnext with hnext | hnext
    · have hrunning := running_next letters
      rw [← hnext] at hrunning
      cases hrunning
    · cases hnext
  · rintro id rfl
    rcases hnext with hnext | hnext
    · have hrunning := running_next letters
      rw [← hnext] at hrunning
      cases hrunning
    · cases hnext

omit [DecidableEq ι] in
theorem steady_crash (hi : Steady s p) : Steady s { p with loop := .broken } where
  orderly := hi.orderly
  grown := hi.grown
  fresh := hi.fresh
  known := hi.known
  once := hi.once
  distinct := List.nodup_nil
  waiting := by simp [Loop.letters]
  asked := hi.asked
  asking h := by cases h
  owed := hi.owed
  complete h := by cases h
  found _ h := by cases h

theorem steady_step (hi : Steady s p) (hg : Undisturbed s p a) (hs : PassStep ds p a q) :
    Steady s q := by
  cases hs with
  | around hs => exact steady_around hi hg hs
  | page hl hpage => exact steady_page hi hl hpage
  | empty hl hpage => exact steady_empty hi hl hpage
  | replay hl hs => exact steady_replay hi hl hs (Or.inl rfl)
  | @missing started d letters hl hno =>
    have hmem : d ∈ p.loop.letters := by
      rw [hl]
      exact List.mem_cons_self
    obtain ⟨r, hr, hid, hdead⟩ := hi.waiting d hmem
    exact absurd hdead (hno r hr hid)
  | crash hl => exact steady_crash hi
  | unanswered hl hs => exact steady_replay hi hl hs (Or.inr rfl)

theorem run_steady (hi : Orderly s) (h : PassRun ds (Undisturbed s) s p) : Steady s p := by
  induction h with
  | start => exact steady_start hi
  | step h hg hs ih => exact steady_step ih hg hs

/-- A running pass can always take its next step. -/
theorem pass_goesOn (ds : ι → Dispatcher) (h : p.loop.running = true) :
    (∃ q, PassStep ds p .query q) ∨ ∀ started, ∃ q, PassStep ds p (.replay started) q := by
  cases hl : p.loop with
  | querying =>
    refine Or.inl ?_
    cases hpage : p.page with
    | nil => exact ⟨_, .empty hl hpage⟩
    | cons d letters => exact ⟨_, .page hl hpage⟩
  | replaying d letters =>
    refine Or.inr fun started => ?_
    by_cases hparked : Parked p.system d.id
    · obtain ⟨r, hr, hid, hdead⟩ := hparked
      exact ⟨_, .replay hl (.replay started hr hid hdead)⟩
    · exact ⟨_, .missing started hl fun r hr hid hdead => hparked ⟨r, hr, hid, hdead⟩⟩
  | ended | failed | broken =>
    rw [hl] at h
    cases h

/-- An undisturbed pass is one finite pass over what was parked when it began. -/
theorem replay_all_one_pass {G : State ι → Event ι → Prop} (hreach : Reach ds G s)
    (h : PassRun ds (Undisturbed s) s p) : OnePass ds s p := by
  have hi := run_steady (reach_orderly hreach) h
  have hlen : p.replayed.length ≤ s.rows.length := by
    have hsub := hi.once.subperm hi.known
    simpa using hsub.length_le
  refine ⟨hi.once, ⟨hlen, hi.asked.trans (Nat.succ_le_succ hlen)⟩, pass_goesOn ds, ?_⟩
  intro hbroken hstopped
  cases hl : p.loop with
  | querying | replaying =>
    rw [hl] at hstopped
    cases hstopped
  | ended => exact hi.complete hl
  | failed id => exact absurd hl (hi.found id)
  | broken => exact absurd hl hbroken

/-! ### Passes that can be computed -/

/-- The pass after an act, where the act can happen and the database answers. -/
def advance (ds : ι → Dispatcher) (p : Pass ι) : Act ι → Option (Pass ι)
  | .around e => (next ds p.system e).map fun t => { p with system := t }
  | .query =>
    match p.loop with
    | .querying =>
      match p.page with
      | [] => some { p with loop := .ended, queries := p.queries + 1 }
      | d :: letters => some { p with loop := .replaying d letters, queries := p.queries + 1 }
    | _ => none
  | .replay started =>
    match p.loop with
    | .replaying d letters =>
      match next ds p.system (.replay started d.id) with
      | some t => some ⟨t, .next letters, d.id :: p.replayed, p.queries⟩
      | none => some { p with loop := .failed d.id }
    | _ => none
  | .crash _ => none

theorem passStep_of_advance (h : advance ds p a = some q) : PassStep ds p a q := by
  cases a with
  | around e =>
    obtain ⟨t, ht, rfl⟩ := Option.map_eq_some_iff.mp h
    exact .around (step_of_next ht)
  | query =>
    simp only [advance] at h
    split at h
    · rename_i hl
      split at h
      · rename_i hpage
        obtain rfl := Option.some.inj h
        exact .empty hl hpage
      · rename_i hpage
        obtain rfl := Option.some.inj h
        exact .page hl hpage
    · cases h
  | replay started =>
    simp only [advance] at h
    split at h
    · rename_i d letters hl
      split at h
      · rename_i hnext
        obtain rfl := Option.some.inj h
        exact .replay hl (step_of_next hnext)
      · rename_i hnext
        obtain rfl := Option.some.inj h
        refine .missing started hl fun r hr hid hdead => ?_
        rw [next, if_pos ⟨r, hr, hid, hdead⟩] at hnext
        cases hnext
    · cases h
  | crash committed => cases h

theorem run_advance {G : Pass ι → Act ι → Prop} {acts : List (Act ι)} (h : PassRun ds G s p)
    (hg : ∀ p, ∀ a ∈ acts, G p a) (hacts : acts.foldlM (advance ds) p = some q) :
    PassRun ds G s q := by
  induction acts generalizing p with
  | nil =>
    obtain rfl := Option.some.inj hacts
    exact h
  | cons a acts ih =>
    rw [List.foldlM_cons] at hacts
    obtain ⟨p', hp', hrest⟩ := Option.bind_eq_some_iff.mp hacts
    exact ih (.step h (hg p a List.mem_cons_self) (passStep_of_advance hp'))
      (fun p b hb => hg p b (List.mem_cons_of_mem _ hb)) hrest

/-- A delivery is claimed once, answered 500 and parked. -/
def givenUp (id : Nat) : List (Event Replica) :=
  [.claim .left (fun _ => false) [⟨id, "acme", .groupDeleted, some someUuid, somePayload, 1,
      (tries 1).leaseFor⟩],
    .start .left, .answer .left (.answered 500 "500 Internal Server Error" "") 0 0, .report .left]

def parking (id : Nat) : List (Event Replica) :=
  .enqueue 0 id "acme" .groupDeleted someUuid somePayload :: givenUp id

theorem replay_all_one_pass_parked : ∃ (s : State Replica) (p : Pass Replica), p.replayed = [1] ∧
    p.loop.running = false ∧ OnePass (fun _ => tries 1) s p := by
  obtain ⟨s, hs, p, hp, hfacts⟩ : ∃ s, exec (fun _ => tries 1) (fun _ _ => True) .start (parking 1) =
      some s ∧ ∃ p, [Act.query, .replay 0, .query].foldlM (advance fun _ => tries 1) (.start s) =
        some p ∧ (p.replayed, p.loop.running) = ([1], false) :=
    ⟨_, rfl, _, rfl, rfl⟩
  obtain ⟨hreplayed, hstopped⟩ := Prod.mk.inj hfacts
  refine ⟨s, p, hreplayed, hstopped, replay_all_one_pass (reach_exec .start hs) ?_⟩
  refine run_advance .start (fun p a ha => ?_) hp
  simp only [List.mem_cons, List.not_mem_nil, or_false] at ha
  rcases ha with rfl | rfl | rfl <;> trivial

/-- A delivery that its receiver does not take. -/
def stuckRow : DeliveryRow :=
  parked ("receiver returned " ++ "500 Internal Server Error" ++ ": " ++ trimSpace "")
    (lease 0 (tries 1).leaseFor (newDelivery 0 1 "acme" .groupDeleted someUuid somePayload))

structure Stuck (p : Pass Replica) : Prop where
  rows : p.system.rows = [stuckRow]
  clock : p.system.clock = 0
  phase : p.system.phase = fun _ => .idle
  loop : p.loop = .querying

/-- The pass replays it, and it is parked again before the next page is asked for. -/
theorem stuck_again {p : Pass Replica} (h : Stuck p) :
    ∃ q, ([Act.query, Act.replay 0] ++ (givenUp 1).map Act.around).foldlM
      (advance fun _ => tries 1) p = some q ∧ Stuck q ∧ q.replayed = 1 :: p.replayed := by
  obtain ⟨⟨clock, rows, phase, log⟩, loop, replayed, queries⟩ := p
  obtain ⟨hrows, hclock, hphase, hloop⟩ := h
  dsimp only at hrows hclock hphase hloop
  subst hrows hclock hphase hloop
  refine ⟨_, rfl, ⟨rfl, rfl, ?_, rfl⟩, rfl⟩
  funext i
  cases i <;> rfl

theorem stuck_repeats {s : State Replica} (h : Stuck (.start s)) (n : Nat) :
    ∃ p, PassRun (fun _ => tries 1) (fun _ _ => True) s p ∧ Stuck p ∧
      p.replayed = List.replicate n 1 := by
  induction n with
  | zero => exact ⟨.start s, .start, h, rfl⟩
  | succ n ih =>
    obtain ⟨p, hrun, hstuck, hreplayed⟩ := ih
    obtain ⟨q, hq, hstuck, hagain⟩ := stuck_again hstuck
    refine ⟨q, run_advance hrun (fun _ _ _ => trivial) hq, hstuck, ?_⟩
    rw [hagain, hreplayed, List.replicate_succ]

/-- One delivery can be replayed any number of times, and a letter that another operator has
replayed ends the pass before the others. -/
theorem replay_all_repeats_and_stops :
    (∃ s : State Replica, Reach (fun _ => tries 1) (fun _ _ => True) s ∧
      ∀ n, ∃ p, PassRun (fun _ => tries 1) (fun _ _ => True) s p ∧
        p.replayed = List.replicate n 1) ∧
    ∃ (s : State Replica) (p : Pass Replica), Reach (fun _ => tries 1) (fun _ _ => True) s ∧
      PassRun (fun _ => tries 1) (fun _ _ => True) s p ∧ p.loop = .failed 2 ∧
        Parked s 1 ∧ ¬ ReplayedSince s p.system 1 := by
  constructor
  · obtain ⟨s, hs, hrows, hclock, hleft, hright⟩ : ∃ s, exec (fun _ => tries 1) (fun _ _ => True)
        .start (parking 1) = some s ∧ s.rows = [stuckRow] ∧ s.clock = 0 ∧
          s.phase .left = .idle ∧ s.phase .right = .idle :=
      ⟨_, rfl, rfl, rfl, rfl, rfl⟩
    have hidle : s.phase = fun _ => .idle := by
      funext i
      cases i
      · exact hleft
      · exact hright
    refine ⟨s, reach_exec .start hs, fun n => ?_⟩
    obtain ⟨p, hrun, -, hreplayed⟩ := stuck_repeats (s := s) ⟨hrows, hclock, hidle, rfl⟩ n
    exact ⟨p, hrun, hreplayed⟩
  · obtain ⟨s, hs, p, hp, hfailed, hparked, hlog⟩ : ∃ s, exec (fun _ => tries 1) (fun _ _ => True)
        .start (parking 1 ++ parking 2) = some s ∧ ∃ p, [Act.query, .around (.replay 0 2),
          .replay 0].foldlM (advance fun _ => tries 1) (.start s) = some p ∧ p.loop = .failed 2 ∧
            s.rows.map (fun r => (r.id, r.status)) = [(1, .deadLetter), (2, .deadLetter)] ∧
              p.system.log.drop s.log.length = [.replayed 2] :=
      ⟨_, rfl, _, rfl, rfl, rfl, rfl⟩
    refine ⟨s, p, reach_exec .start hs, run_advance .start (fun _ _ _ => trivial) hp, hfailed, ?_, ?_⟩
    · have hmem : (1, .deadLetter) ∈ s.rows.map fun r => (r.id, r.status) := by
        rw [hparked]
        exact List.mem_cons_self
      obtain ⟨r, hr, hrow⟩ := List.mem_map.mp hmem
      obtain ⟨hid, hdead⟩ := Prod.mk.inj hrow
      exact ⟨r, hr, hid, hdead⟩
    · rw [ReplayedSince, hlog]
      decide

end Scimage.Webhook
