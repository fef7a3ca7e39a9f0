import Scimage.Webhook.Signer

/-! Form tokens: a bucket of time and its MAC. -/
namespace Scimage.Console

open Store (Time)
open Webhook (wrap64 unix hexEncode)

/-! ### Text as bytes -/

/-- The bytes of a text of byte-sized characters. -/
def toBytes (cs : List Char) : List UInt8 := cs.map fun c => UInt8.ofNat c.toNat

/-- A byte as a reader of digits sees it. -/
def ofByte (b : UInt8) : Char := Char.ofNat b.toNat

/-- `strings.Cut` at one byte: what stands before it, when it occurs. -/
def cut (sep : UInt8) (s : List UInt8) : Option (List UInt8) :=
  if sep ∈ s then some (s.takeWhile (· != sep)) else none

def dot : UInt8 := 46

/-- `strconv.ParseInt(s, 10, 64)`. -/
def parseInt (s : List UInt8) : Option Int := Decimal.parse (s.map ofByte)

/-! ### The guard -/

def csrfWindow : Int := 60 * 60 * 1000000000

/-- An instant of `time.Time`: its seconds fit in an `int64`. -/
structure Instant where
  ns : Int
  low : -9223372036854775808 ≤ unix ns
  high : unix ns < 9223372036854775808

/-- `Unix / 3600`, rounded toward zero. -/
def bucketOf (t : Instant) : Int := (unix t.ns).tdiv (csrfWindow / 1000000000)

/-- `binary.BigEndian.PutUint64` of an `int64`. -/
def putUint64 (n : Int) : List UInt8 :=
  [72057594037927936, 281474976710656, 1099511627776, 4294967296, 16777216, 65536, 256, 1].map
    fun place => UInt8.ofNat ((n % 18446744073709551616).toNat / place)

/-- `sum key message` is the HMAC-SHA256. -/
structure CsrfGuard where
  sum : List UInt8 → List UInt8 → List UInt8
  key : List UInt8

namespace CsrfGuard

variable (g : CsrfGuard)

def tokenForBucket (bucket : Int) : List UInt8 :=
  toBytes (Decimal.format bucket) ++ dot :: toBytes (hexEncode (g.sum g.key (putUint64 bucket)))

def token (now : Instant) : List UInt8 := g.tokenForBucket (bucketOf now)

def valid (tok : List UInt8) (now : Instant) : Bool :=
  match cut dot tok with
  | none => false
  | some bucketStr =>
    match parseInt bucketStr with
    | none => false
    | some bucket =>
      let current := bucketOf now
      if bucket ≠ current ∧ bucket ≠ wrap64 (current - 1) then false
      else tok = g.tokenForBucket bucket

end CsrfGuard

/-! ### What is read of a token -/

theorem ofByte_toByte {c : Char} (h : c.toNat < 128) : ofByte (UInt8.ofNat c.toNat) = c := by
  have hsize : (UInt8.ofNat c.toNat).toNat = c.toNat := by
    rw [UInt8.toNat_ofNat']
    omega
  rw [ofByte, hsize, Char.ofNat_toNat]

theorem dot_notMem_toBytes {cs : List Char} (h : Decimal.Numeral cs) : ∀ b ∈ toBytes cs, b ≠ dot := by
  intro b hb heq
  obtain ⟨c, hc, rfl⟩ := List.mem_map.mp hb
  have hrange := h.range hc
  have hback := congrArg ofByte heq
  rw [ofByte_toByte (by omega)] at hback
  rcases h c hc with rfl | rfl | hdigit
  · exact absurd hback (by decide)
  · exact absurd hback (by decide)
  · rw [hback] at hdigit
    exact absurd hdigit (by decide)

theorem map_ofByte_toBytes {cs : List Char} (h : Decimal.Numeral cs) :
    (toBytes cs).map ofByte = cs := by
  rw [toBytes, List.map_map]
  refine (List.map_congr_left fun c hc => ?_).trans (List.map_id cs)
  have hrange := h.range hc
  exact ofByte_toByte (by omega)

theorem cut_append {sep : UInt8} {before : List UInt8} (h : ∀ b ∈ before, b ≠ sep)
    (after : List UInt8) : cut sep (before ++ sep :: after) = some before := by
  rw [cut, if_pos (by simp), List.takeWhile_append_of_pos (by simpa using h)]
  simp

variable {g : CsrfGuard} {t now : Instant} {bucket : Int}

theorem cut_tokenForBucket (g : CsrfGuard) (bucket : Int) :
    cut dot (g.tokenForBucket bucket) = some (toBytes (Decimal.format bucket)) :=
  cut_append (dot_notMem_toBytes (Decimal.numeral_format bucket)) _

/-- What `FormatInt` prints is what `ParseInt` reads. -/
theorem parseInt_format (hlow : -9223372036854775808 ≤ bucket)
    (hhigh : bucket < 9223372036854775808) :
    parseInt (toBytes (Decimal.format bucket)) = some bucket := by
  rw [parseInt, map_ofByte_toBytes (Decimal.numeral_format bucket)]
  exact Decimal.parse_format hlow hhigh

theorem tokenForBucket_injective (g : CsrfGuard) : Function.Injective g.tokenForBucket := by
  intro a b h
  have hcut := cut_tokenForBucket g a
  rw [h, cut_tokenForBucket, Option.some.injEq] at hcut
  have hread := congrArg (List.map ofByte) hcut
  rw [map_ofByte_toBytes (Decimal.numeral_format b), map_ofByte_toBytes (Decimal.numeral_format a)]
    at hread
  exact (Decimal.format_injective hread).symm

/-! ### The buckets of instants -/

theorem bucketOf_eq (h : 0 ≤ t.ns) : bucketOf t = t.ns / 3600000000000 := by
  have hunix : 0 ≤ unix t.ns := Int.ediv_nonneg h (by decide)
  rw [bucketOf, Int.tdiv_eq_ediv_of_nonneg hunix]
  unfold unix csrfWindow
  omega

theorem bucketOf_nonneg (h : 0 ≤ t.ns) : 0 ≤ bucketOf t := by
  rw [bucketOf_eq h]
  omega

theorem bucketOf_lt (h : 0 ≤ t.ns) : bucketOf t < 9223372036854775808 := by
  have hhigh := t.high
  unfold unix at hhigh
  rw [bucketOf_eq h]
  omega

/-- Only the tokens of the current and the previous bucket are accepted. -/
theorem valid_iff {s : List UInt8} (hnow : 0 ≤ now.ns) : g.valid s now = true ↔
    s = g.tokenForBucket (bucketOf now) ∨ s = g.tokenForBucket (bucketOf now - 1) := by
  have hlow := bucketOf_nonneg hnow
  have hhigh := bucketOf_lt hnow
  have hprevious : wrap64 (bucketOf now - 1) = bucketOf now - 1 :=
    Webhook.wrap64_of_fits (by omega) (by omega)
  constructor
  · intro h
    rw [CsrfGuard.valid] at h
    split at h
    · cases h
    · split at h
      · cases h
      · rename_i bucket _
        dsimp only at h
        split_ifs at h with hbucket
        rw [decide_eq_true_eq] at h
        rw [hprevious] at hbucket
        by_cases hcurrent : bucket = bucketOf now
        · exact Or.inl (hcurrent ▸ h)
        · have hother : bucket = bucketOf now - 1 := by
            by_contra hne
            exact hbucket ⟨hcurrent, hne⟩
          exact Or.inr (hother ▸ h)
  · -- a token names the bucket that its MAC is of
    have haccept : ∀ bucket, bucket = bucketOf now ∨ bucket = bucketOf now - 1 →
        g.valid (g.tokenForBucket bucket) now = true := by
      intro bucket hbucket
      have hread : parseInt (toBytes (Decimal.format bucket)) = some bucket :=
        parseInt_format (by omega) (by omega)
      have hnear : ¬ (bucket ≠ bucketOf now ∧ bucket ≠ bucketOf now - 1) := by omega
      rw [CsrfGuard.valid, cut_tokenForBucket]
      dsimp only
      rw [hread]
      dsimp only
      rw [hprevious, if_neg hnear, decide_eq_true_eq]
    rintro (rfl | rfl)
    · exact haccept _ (Or.inl rfl)
    · exact haccept _ (Or.inr rfl)

theorem valid_token_iff (hnow : 0 ≤ now.ns) : g.valid (g.token t) now = true ↔
    bucketOf t = bucketOf now ∨ bucketOf t = bucketOf now - 1 := by
  rw [valid_iff hnow, CsrfGuard.token, (tokenForBucket_injective g).eq_iff,
    (tokenForBucket_injective g).eq_iff]

/-- A token lives for one hour at least and less than two, and no other text is accepted. -/
theorem csrf_lifetime (g : CsrfGuard) (t now : Instant) (ht : 0 ≤ t.ns) (hnow : 0 ≤ now.ns)
    (s : List UInt8) :
    (t.ns ≤ now.ns → now.ns ≤ t.ns + csrfWindow → g.valid (g.token t) now = true) ∧
      (t.ns + 2 * csrfWindow ≤ now.ns → g.valid (g.token t) now = false) ∧
      (g.valid s now = true →
        s = g.tokenForBucket (bucketOf now) ∨ s = g.tokenForBucket (bucketOf now - 1)) := by
  have hissued := bucketOf_eq ht
  have hcurrent := bucketOf_eq hnow
  unfold csrfWindow
  refine ⟨fun hle hlt => ?_, fun hold => ?_, (valid_iff hnow).mp⟩
  · rw [valid_token_iff hnow, hissued, hcurrent]
    omega
  · rw [← Bool.not_eq_true, valid_token_iff hnow, hissued, hcurrent]
    omega

def plainGuard : CsrfGuard := ⟨fun key message => key ++ message, []⟩

def atHour (n : Nat) (h : unix (n * csrfWindow) < 9223372036854775808) : Instant :=
  ⟨n * csrfWindow, by unfold unix csrfWindow; omega, h⟩

theorem csrf_lifetime_hours :
    plainGuard.valid (plainGuard.token (atHour 0 (by decide))) (atHour 1 (by decide)) = true ∧
      plainGuard.valid (plainGuard.token (atHour 0 (by decide))) (atHour 2 (by decide)) = false := by
  have hone := csrf_lifetime plainGuard (atHour 0 (by decide)) (atHour 1 (by decide)) (by decide)
    (by decide) []
  have htwo := csrf_lifetime plainGuard (atHour 0 (by decide)) (atHour 2 (by decide)) (by decide)
    (by decide) []
  exact ⟨hone.1 (by decide) (by decide), htwo.2.1 (by decide)⟩

end Scimage.Console
