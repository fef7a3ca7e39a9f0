import Scimage.Console.Tokens
import Scimage.Webhook.Dispatcher

/-! Durations given as a number of days. -/
namespace Scimage.Console

open Store (Time Duration trimSpace DeliveryRow TokenRow ConsoleTokenRow)
open Webhook (wrap64)

/-- `time.Hour`. -/
def hour : Int := 60 * 60 * 1000000000

/-- A day in nanoseconds. -/
def day : Int := 86400 * 1000000000

/-- `time.Duration(n) * 24 * time.Hour`. -/
def days (n : Int) : Int := wrap64 (wrap64 (n * 24) * hour)

/-- `strconv.Atoi`. -/
def atoi (s : String) : Option Int := Decimal.parse s.toList

/-- `strings.CutSuffix` of `d`. -/
def cutDays (s : String) : Option String :=
  if s.toList.getLast? = some 'd' then some (String.ofList s.toList.dropLast) else none

/-! ### The five readers -/

def defaultRetention : Duration := 30 * 24 * hour

/-- `retentionFromEnv`, of the value of `SCIM_WEBHOOK_RETENTION_DAYS`. -/
def retentionFromEnv (env : String) : Duration :=
  let raw := trimSpace env
  if raw = "" then defaultRetention
  else
    match atoi raw with
    | none => defaultRetention
    | some n => if n < 0 then defaultRetention else days n

/-- The errors of the flags, with the value that was refused. -/
inductive FlagError where
  | invalidExpires (value : String)
  | sinceRequired
  | invalidSince (value : String)

section ParseDuration

-- `time.ParseDuration`
variable (parseDuration : String → Option Duration)

/-- `parseExpiry` of `scimage-admin`. -/
def parseExpiryFlag (now : Time) (value : String) : Except FlagError (Option Time) :=
  let s := trimSpace value
  if s = "" then .ok none
  else
    match cutDays s with
    | some text =>
      match atoi text with
      | none => .error (.invalidExpires s)
      | some n => .ok (some (now + days n))
    | none =>
      match parseDuration s with
      | none => .error (.invalidExpires s)
      | some d => .ok (some (now + d))

/-- `parseExpiry` of the console, which hands on the error as it is. -/
def parseExpiry (now : Time) (value : String) : Option (Option Time) :=
  let s := trimSpace value
  if s = "" then some none
  else
    match cutDays s with
    | some text =>
      match atoi text with
      | none => none
      | some n => some (some (now + days n))
    | none =>
      match parseDuration s with
      | none => none
      | some d => some (some (now + d))

/-- `parseSince` of `aria`. -/
def parseSince (value : String) : Except FlagError Duration :=
  let s := trimSpace value
  if s = "" then .error .sinceRequired
  else
    match cutDays s with
    | some text =>
      match atoi text with
      | none => .error (.invalidSince s)
      | some n => if n ≤ 0 then .error (.invalidSince s) else .ok (days n)
    | none =>
      match parseDuration s with
      | none => .error (.invalidSince s)
      | some d => if d ≤ 0 then .error (.invalidSince s) else .ok d

/-- `parseWindow`: the caller takes its default for 0. -/
def parseWindow (value : String) : Duration :=
  let s := trimSpace value
  if s = "" then 0
  else
    match cutDays s with
    | some text =>
      match atoi text with
      | none => 0
      | some n => if n ≤ 0 then 0 else days n
    | none =>
      match parseDuration s with
      | none => 0
      | some d => if d ≤ 0 then 0 else d

end ParseDuration

/-! ### What a number of days promises -/

/-- The value of the environment is a number of days. -/
def Gives (env : String) (n : Int) : Prop := atoi (trimSpace env) = some n

/-- The value of a flag or a field is a number of days. -/
def GivesDays (value : String) (n : Int) : Prop :=
  ∃ text, cutDays (trimSpace value) = some text ∧ atoi text = some n

/-- The cutoff of `purgeDelivered`. -/
def purgeCutoff (retention : Duration) (now : Time) : Time := now + wrap64 (-retention)

/-- Both listeners treat a token with this expiry as one without. -/
structure Unexpired (expiresAt : Option Time) (now : Time) : Prop where
  scim : ∀ (sha256 : Scim.Bytes → Scim.Bytes) (tok : TokenRow) (r : Scim.WebRequest),
    Scim.authenticate sha256 now (fun _ => some { tok with expiresAt }) r =
      Scim.authenticate sha256 now (fun _ => some { tok with expiresAt := none }) r
  console : ∀ (sha256 : Scim.Bytes → Scim.Bytes) (tok : ConsoleTokenRow) (r : Scim.WebRequest),
    authenticateConsole sha256 now (fun _ => some { tok with expiresAt }) r =
      authenticateConsole sha256 now (fun _ => some { tok with expiresAt := none }) r

/-- Each reader refuses the number, falls back to its default or takes exactly that many days; no
row is purged and no token expires earlier. -/
structure ExactDays (parseDuration : String → Option Duration) (n : Int) : Prop where
  retention : 0 ≤ n → ∀ env, Gives env n →
    retentionFromEnv env = defaultRetention ∨ retentionFromEnv env = n * day
  expiryFlag : ∀ now value, GivesDays value n →
    (∃ e, parseExpiryFlag parseDuration now value = .error e) ∨
      parseExpiryFlag parseDuration now value = .ok (some (now + n * day))
  expiry : ∀ now value, GivesDays value n → parseExpiry parseDuration now value = none ∨
    parseExpiry parseDuration now value = some (some (now + n * day))
  since : ∀ value, GivesDays value n → (∃ e, parseSince parseDuration value = .error e) ∨
    parseSince parseDuration value = .ok (n * day)
  window : ∀ value, GivesDays value n → parseWindow parseDuration value = 0 ∨
    parseWindow parseDuration value = n * day
  purge : 0 < n → ∀ env, Gives env n → ∀ (now delivered : Time) (rows : List DeliveryRow),
    ∀ row ∈ rows, row.deliveredAt = some delivered → now - n * day < delivered →
    row ∈ Store.purgeDeliveredBefore (purgeCutoff (retentionFromEnv env) now) rows
  live : 0 < n → ∀ (issued now : Time) value, GivesDays value n → now < issued + n * day →
    ∀ expiresAt, parseExpiryFlag parseDuration issued value = .ok expiresAt ∨
      parseExpiry parseDuration issued value = some expiresAt → Unexpired expiresAt now

/-- What `Atoi` accepts is an `int64`. -/
def Accepted (n : Int) : Prop := -9223372036854775808 ≤ n ∧ n < 9223372036854775808

variable {parseDuration : String → Option Duration} {n : Int} {env value : String} {now : Time}

/-! ### Readers of a number of days -/

theorem wrap64_range (n : Int) :
    -9223372036854775808 ≤ wrap64 n ∧ wrap64 n < 9223372036854775808 := by
  exact ⟨Int.le_bmod (by decide), Int.bmod_lt (by decide)⟩

/-- Up to 106751 days fit in a duration. -/
theorem days_eq_iff (n : Int) : days n = n * day ↔ -106751 ≤ n ∧ n ≤ 106751 := by
  unfold days hour day
  constructor
  · intro h
    have hrange := wrap64_range (wrap64 (n * 24) * (60 * 60 * 1000000000))
    rw [h] at hrange
    omega
  · rintro ⟨hlow, hhigh⟩
    have hinner : wrap64 (n * 24) = n * 24 := Webhook.wrap64_of_fits (by omega) (by omega)
    rw [hinner, Webhook.wrap64_of_fits (by omega) (by omega)]
    omega

theorem ne_empty_of_parse {s : String} (h : atoi s = some n) : s ≠ "" := by
  rintro rfl
  cases h

theorem trim_ne_empty (h : cutDays (trimSpace value) = some env) : trimSpace value ≠ "" := by
  intro hempty
  rw [hempty] at h
  cases h

theorem retentionFromEnv_eq (hn : 0 ≤ n) (h : Gives env n) : retentionFromEnv env = days n := by
  unfold Gives at h
  rw [retentionFromEnv]
  rw [if_neg (ne_empty_of_parse h), h]
  exact if_neg (Int.not_lt.mpr hn)

theorem parseExpiryFlag_eq (h : GivesDays value n) :
    parseExpiryFlag parseDuration now value = .ok (some (now + days n)) := by
  obtain ⟨text, hcut, htext⟩ := h
  rw [parseExpiryFlag]
  rw [if_neg (trim_ne_empty hcut), hcut]
  dsimp only
  rw [htext]

theorem parseExpiry_eq (h : GivesDays value n) :
    parseExpiry parseDuration now value = some (some (now + days n)) := by
  obtain ⟨text, hcut, htext⟩ := h
  rw [parseExpiry]
  rw [if_neg (trim_ne_empty hcut), hcut]
  dsimp only
  rw [htext]

theorem parseSince_eq (h : GivesDays value n) : parseSince parseDuration value =
    if n ≤ 0 then .error (.invalidSince (trimSpace value)) else .ok (days n) := by
  obtain ⟨text, hcut, htext⟩ := h
  rw [parseSince]
  rw [if_neg (trim_ne_empty hcut), hcut]
  dsimp only
  rw [htext]

theorem parseWindow_eq (h : GivesDays value n) :
    parseWindow parseDuration value = if n ≤ 0 then 0 else days n := by
  obtain ⟨text, hcut, htext⟩ := h
  rw [parseWindow]
  rw [if_neg (trim_ne_empty hcut), hcut]
  dsimp only
  rw [htext]

/-- Each number has a text with the letter after it. -/
theorem givesDays_format (h : Accepted n) :
    GivesDays (String.ofList (Decimal.format n ++ ['d'])) n := by
  have htrim : trimSpace (String.ofList (Decimal.format n ++ ['d'])) =
      String.ofList (Decimal.format n ++ ['d']) := by
    obtain ⟨c, cs, hcs⟩ := List.exists_cons_of_ne_nil (Decimal.format_ne_nil n)
    have hc := Decimal.numeral_format n c (by rw [hcs]; exact List.mem_cons_self)
    rw [hcs]
    refine Store.trimSpace_eq_self String.toList_ofList ?_ (by decide)
    rcases hc with rfl | rfl | hdigit
    · decide
    · decide
    · have hrange := Char.isDigit_iff_toNat.mp hdigit
      have hzero : '0'.toNat = 48 := rfl
      have hnine : '9'.toNat = 57 := rfl
      simp [Store.isSpace]
      omega
  refine ⟨String.ofList (Decimal.format n), ?_, ?_⟩
  · rw [htrim, cutDays, String.toList_ofList, if_pos (by simp)]
    simp
  · rw [atoi, String.toList_ofList]
    exact Decimal.parse_format h.1 h.2

theorem unexpired_of_lt {t : Time} (h : now < t) : Unexpired (some t) now := by
  have hlate : ¬ t ≤ now := Int.not_le.mpr h
  constructor
  · intro sha256 tok r
    simp [Scim.authenticate, hlate]
  · intro sha256 tok r
    simp [authenticateConsole, hlate]

/-- A number of days is used exactly just when it fits in a duration. -/
theorem exactDays_iff (parseDuration : String → Option Duration) (n : Int) (h : Accepted n) :
    ExactDays parseDuration n ↔ -106751 ≤ n ∧ n ≤ 106751 := by
  constructor
  · intro hexact
    rw [← days_eq_iff]
    rcases hexact.expiry 0 _ (givesDays_format h) with hnone | heq
    · rw [parseExpiry_eq (givesDays_format h)] at hnone
      cases hnone
    · rw [parseExpiry_eq (givesDays_format h), Option.some.injEq, Option.some.injEq] at heq
      exact Int.add_left_cancel heq
  · intro hfits
    have hdays := (days_eq_iff n).mpr hfits
    refine ⟨fun hn env henv => Or.inr ?_, fun now value hv => Or.inr ?_, fun now value hv => Or.inr ?_,
      fun value hv => ?_, fun value hv => ?_, ?_, ?_⟩
    · rw [retentionFromEnv_eq hn henv, hdays]
    · rw [parseExpiryFlag_eq hv, hdays]
    · rw [parseExpiry_eq hv, hdays]
    · rw [parseSince_eq hv, hdays]
      split
      · exact Or.inl ⟨_, rfl⟩
      · exact Or.inr rfl
    · rw [parseWindow_eq hv, hdays]
      split
      · exact Or.inl rfl
      · exact Or.inr rfl
    · intro hn env henv now delivered rows row hrow hdelivered hlate
      have hneg : wrap64 (-(n * day)) = -(n * day) := by
        unfold day
        exact Webhook.wrap64_of_fits (by omega) (by omega)
      rw [retentionFromEnv_eq (Int.le_of_lt hn) henv, hdays, purgeCutoff, hneg]
      have hkept : Store.purgeable (now + -(n * day)) row = false := by
        rw [Store.purgeable, decide_eq_false_iff_not]
        rintro ⟨-, t, ht, hlt⟩
        cases hdelivered.symm.trans ht
        exact Int.lt_asymm hlate hlt
      refine List.mem_filter.mpr ⟨hrow, ?_⟩
      rw [hkept]
      rfl
    · intro hn issued now value hv hearly expiresAt hread
      have hexpiry : expiresAt = some (issued + n * day) := by
        rcases hread with hread | hread
        · rw [parseExpiryFlag_eq hv, hdays] at hread
          cases hread
          rfl
        · rw [parseExpiry_eq hv, hdays] at hread
          cases hread
          rfl
      rw [hexpiry]
      exact unexpired_of_lt hearly

/-- No text but a number of days. -/
def noDuration (_ : String) : Option Duration := none

theorem exactDays_week : ExactDays noDuration 7 :=
  (exactDays_iff noDuration 7 ⟨by decide, by decide⟩).mpr ⟨by decide, by decide⟩

/-- A retention of 213504 days is one of 25 minutes. -/
theorem not_exactDays : retentionFromEnv "213504" = 1526290448384 ∧ ¬ ExactDays noDuration 213504 := by
  have hretention : retentionFromEnv "213504" = 1526290448384 := by
    have hgives : Gives "213504" 213504 := by rfl
    rw [retentionFromEnv_eq (by decide) hgives]
    decide
  refine ⟨hretention, fun h => ?_⟩
  rcases h.retention (by decide) "213504" (by rfl) with heq | heq
  · rw [hretention] at heq
    exact absurd heq (by decide)
  · rw [hretention] at heq
    exact absurd heq (by decide)

end Scimage.Console
