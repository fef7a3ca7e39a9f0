import Scimage.Lib.Framing
import Scimage.Lib.Decimal
import Scimage.Store.Text
import Scimage.Store.Uuid
import Scimage.Webhook.Dispatcher

/-! Signatures of deliveries: what is signed, and what a receiver accepts. -/
namespace Scimage.Webhook

open Store

/-- HMAC-SHA256 with each key as an injective function of the message. -/
structure Hmac where
  sum : List UInt8 → List UInt8 → List UInt8
  injective : ∀ key, Function.Injective (sum key)
  nonempty : ∀ key message, sum key message ≠ []

/-- A string as Go writes it into a hash. -/
def bytes (s : String) : List UInt8 := s.toByteArray.data.toList

theorem bytes_inj {s t : String} : bytes s = bytes t ↔ s = t := by
  unfold bytes
  rw [← String.toByteArray_inj, Array.toList_inj, ByteArray.ext_iff]

theorem bytes_ofList (cs : List Char) :
    bytes (String.ofList cs) = cs.flatMap String.utf8EncodeChar := by
  simp [bytes, List.utf8Encode]

theorem bytes_append (s t : String) : bytes (s ++ t) = bytes s ++ bytes t := by
  simp [bytes]

/-! ### Hexadecimal -/

local instance hexBase : @NeZero Nat (@Zero.ofOfNat0 Nat (instOfNatNat 0)) 16 := ⟨Nat.succ_ne_zero 15⟩

def hexDigits (b : UInt8) : List Char :=
  [Uuid.hexDigit (Fin.ofNat 16 (b.toNat / 16)), Uuid.hexDigit (Fin.ofNat 16 b.toNat)]

/-- `hex.EncodeToString`. -/
def hexEncode (bs : List UInt8) : List Char := bs.flatMap hexDigits

/-- `hex.DecodeString`: pairs of digits of either case. -/
def hexDecode : List Char → Option (List UInt8)
  | [] => some []
  | [_] => none
  | a :: b :: cs =>
    match Uuid.hexValue a, Uuid.hexValue b, hexDecode cs with
    | some a, some b, some bs => some (UInt8.ofNat (16 * a.val + b.val) :: bs)
    | _, _, _ => none

theorem hexDecode_hexEncode (bs : List UInt8) : hexDecode (hexEncode bs) = some bs := by
  induction bs with
  | nil => rfl
  | cons b bs ih =>
    have hb := b.toNat_lt
    have hvalue : 16 * (b.toNat / 16 % 16) + b.toNat % 16 = b.toNat := by omega
    have hrest : hexEncode (b :: bs) = hexDigits b ++ hexEncode bs := rfl
    rw [hrest]
    simp [hexDigits, hexDecode, Uuid.hexValue_hexDigit, ih, Fin.ofNat, hvalue]

theorem hexDigit_alphabet (n : Fin 16) :
    isSpace (Uuid.hexDigit n) = false ∧ Uuid.hexDigit n ≠ ',' := by
  revert n
  decide

theorem hexEncode_alphabet {bs : List UInt8} {c : Char} (h : c ∈ hexEncode bs) :
    isSpace c = false ∧ c ≠ ',' := by
  obtain ⟨b, -, hc⟩ := List.mem_flatMap.mp h
  simp only [hexDigits, List.mem_cons, List.not_mem_nil, or_false] at hc
  rcases hc with rfl | rfl <;> exact hexDigit_alphabet _

/-! ### Signing -/

/-- `Time.Unix`, of an instant in nanoseconds: whole seconds, rounded down. -/
def unix (ts : Int) : Int := ts / 1000000000

def formatInt (n : Int) : String := String.ofList (Decimal.format n)

def mac (H : Hmac) (secret stamp : String) (deliveryID : Int) (event : String)
    (body : List UInt8) : List UInt8 :=
  H.sum (bytes secret) (Framing.frame 10 [bytes stamp, bytes (formatInt deliveryID), bytes event] body)

def sign (H : Hmac) (secret : String) (ts deliveryID : Int) (event : String)
    (body : List UInt8) : String :=
  let stamp := formatInt (unix ts)
  "t=" ++ stamp ++ ",v1=" ++ String.ofList (hexEncode (mac H secret stamp deliveryID event body))

/-! ### Verifying -/

inductive SignatureError where
  | malformedSignature | staleSignature | badSignature
  deriving DecidableEq

/-- `strings.Cut` at the first `=`. -/
def cut (cs : List Char) : Option (List Char × List Char) :=
  if '=' ∈ cs then some (cs.takeWhile (· ≠ '='), (cs.dropWhile (· ≠ '=')).tail) else none

/-- The fields a header carries; of a repeated one, the last. -/
structure Fields where
  stamp : String
  rawMAC : String

def Fields.read (f : Fields) (part : List Char) : Fields :=
  match cut (trimSpace (String.ofList part)).toList with
  | some (['t'], v) => { f with stamp := String.ofList v }
  | some (['v', '1'], v) => { f with rawMAC := String.ofList v }
  | _ => f

def fields (header : String) : Fields := (header.toList.splitOn ',').foldl Fields.read ⟨"", ""⟩

/-- The stamp's text, the seconds it stands for and the MAC. -/
def parseSignature (header : String) : Except SignatureError (String × Int × List UInt8) :=
  if (fields header).stamp = "" ∨ (fields header).rawMAC = "" then .error .malformedSignature
  else
    match Decimal.parse (fields header).stamp.toList, hexDecode (fields header).rawMAC.toList with
    | some secs, some mac => .ok ((fields header).stamp, secs, mac)
    | _, _ => .error .malformedSignature

def maxDuration : Int := 9223372036854775807

/-- `Time.Sub`: the difference, or the nearest duration there is. -/
def sub (t u : Int) : Int :=
  if maxDuration < t - u then maxDuration
  else if t - u < -maxDuration - 1 then -maxDuration - 1
  else t - u

def verify (H : Hmac) (secret header : String) (deliveryID : Int) (event : String)
    (body : List UInt8) (now tolerance : Int) : Except SignatureError Unit :=
  match parseSignature header with
  | .error e => .error e
  | .ok (stamp, secs, got) =>
    if tolerance < sub now (secs * 1000000000) ∨
        sub now (secs * 1000000000) < wrap64 (-tolerance) then .error .staleSignature
    else if got ≠ mac H secret stamp deliveryID event body then .error .badSignature
    else .ok ()

/-! ### What is covered -/

theorem newline_notMem_bytes {cs : List Char} (h : Decimal.Numeral cs) :
    10 ∉ bytes (String.ofList cs) := by
  intro hm
  rw [bytes_ofList] at hm
  obtain ⟨c, hc, hbyte⟩ := List.mem_flatMap.mp hm
  have hrange := h.range hc
  have hval : c.toNat = c.val.toNat := rfl
  rw [String.utf8EncodeChar, if_pos (by omega), List.mem_singleton] at hbyte
  have hten := congrArg UInt8.toNat hbyte
  rw [UInt8.toNat_ofNat'] at hten
  have hlit : UInt8.toNat 10 = 10 := rfl
  omega

/-- The message determines the stamp, the delivery id, the event and the body. -/
theorem mac_inj {H : Hmac} {secret event event' : String} {stamp stamp' : List Char} {id id' : Int}
    {body body' : List UInt8} (hs : Decimal.Numeral stamp) (hs' : Decimal.Numeral stamp')
    (he : 10 ∉ bytes event) (he' : 10 ∉ bytes event')
    (h : mac H secret (String.ofList stamp) id event body =
      mac H secret (String.ofList stamp') id' event' body') :
    stamp = stamp' ∧ id = id' ∧ event = event' ∧ body = body' := by
  have hfree : ∀ f ∈ [bytes (String.ofList stamp), bytes (formatInt id), bytes event], 10 ∉ f := by
    intro f hf
    simp only [List.mem_cons, List.not_mem_nil, or_false] at hf
    rcases hf with rfl | rfl | rfl
    · exact newline_notMem_bytes hs
    · exact newline_notMem_bytes (Decimal.numeral_format id)
    · exact he
  have hfree' : ∀ f ∈ [bytes (String.ofList stamp'), bytes (formatInt id'), bytes event'],
      10 ∉ f := by
    intro f hf
    simp only [List.mem_cons, List.not_mem_nil, or_false] at hf
    rcases hf with rfl | rfl | rfl
    · exact newline_notMem_bytes hs'
    · exact newline_notMem_bytes (Decimal.numeral_format id')
    · exact he'
  obtain ⟨hfields, hbody⟩ := Framing.frame_inj (by rfl) hfree hfree' (H.injective _ h)
  simp only [List.cons.injEq, bytes_inj, and_true] at hfields
  obtain ⟨hstamp, hid, hevent⟩ := hfields
  have hid' := Decimal.format_injective (String.ofList_injective hid)
  exact ⟨String.ofList_injective hstamp, hid', hevent, hbody⟩

theorem trimSpace_eq {cs : List Char} (h : ∀ c ∈ cs, isSpace c = false) :
    trimSpace (String.ofList cs) = String.ofList cs := by
  have hkeep : ∀ l : List Char, (∀ c ∈ l, isSpace c = false) → l.dropWhile isSpace = l := by
    intro l hl
    cases l with
    | nil => rfl
    | cons c l => simp [hl c List.mem_cons_self]
  have hrev : ∀ c ∈ cs.reverse, isSpace c = false := by
    intro c hc
    exact h c (List.mem_reverse.mp hc)
  rw [trimSpace, String.toList_ofList, hkeep cs h, hkeep _ hrev, List.reverse_reverse]

theorem isSpace_numeral {cs : List Char} (h : Decimal.Numeral cs) :
    ∀ c ∈ cs, isSpace c = false ∧ c ≠ ',' := by
  intro c hc
  rcases h c hc with rfl | rfl | hd
  · decide
  · decide
  · have hrange := Char.isDigit_iff_toNat.mp hd
    have hzero : '0'.toNat = 48 := rfl
    have hnine : '9'.toNat = 57 := rfl
    refine ⟨?_, ?_⟩
    · simp only [isSpace]
      grind
    · intro hcomma
      subst hcomma
      cases hd

theorem read_stamp {cs : List Char} (f : Fields) (h : ∀ c ∈ cs, isSpace c = false) :
    f.read ('t' :: '=' :: cs) = { f with stamp := String.ofList cs } := by
  have hclean : ∀ c ∈ 't' :: '=' :: cs, isSpace c = false := by
    intro c hc
    simp only [List.mem_cons] at hc
    rcases hc with rfl | rfl | hc
    · decide
    · decide
    · exact h c hc
  have hcut : cut ('t' :: '=' :: cs) = some (['t'], cs) := by simp [cut]
  rw [Fields.read, trimSpace_eq hclean, String.toList_ofList, hcut]
  rfl

theorem read_rawMAC {cs : List Char} (f : Fields) (h : ∀ c ∈ cs, isSpace c = false) :
    f.read ('v' :: '1' :: '=' :: cs) = { f with rawMAC := String.ofList cs } := by
  have hclean : ∀ c ∈ 'v' :: '1' :: '=' :: cs, isSpace c = false := by
    intro c hc
    simp only [List.mem_cons] at hc
    rcases hc with rfl | rfl | rfl | hc
    · decide
    · decide
    · decide
    · exact h c hc
  have hcut : cut ('v' :: '1' :: '=' :: cs) = some (['v', '1'], cs) := by simp [cut]
  rw [Fields.read, trimSpace_eq hclean, String.toList_ofList, hcut]
  rfl

/-- A receiver finds in the header what `sign` has put there. -/
theorem fields_sign (H : Hmac) (secret event : String) (ts id : Int) (body : List UInt8) :
    fields (sign H secret ts id event body) = ⟨formatInt (unix ts),
      String.ofList (hexEncode (mac H secret (formatInt (unix ts)) id event body))⟩ := by
  have hstamp := isSpace_numeral (Decimal.numeral_format (unix ts))
  have hhex : ∀ c ∈ hexEncode (mac H secret (formatInt (unix ts)) id event body),
      isSpace c = false ∧ c ≠ ',' := fun c hc => hexEncode_alphabet hc
  have htext : (sign H secret ts id event body).toList =
      ('t' :: '=' :: Decimal.format (unix ts)) ++ ',' ::
        ('v' :: '1' :: '=' :: hexEncode (mac H secret (formatInt (unix ts)) id event body)) := by
    simp [sign, formatInt]
  have hfirst : ',' ∉ 't' :: '=' :: Decimal.format (unix ts) := by
    intro hm
    simp only [List.mem_cons, Char.reduceEq, false_or] at hm
    exact (hstamp _ hm).2 rfl
  have hsecond : ',' ∉
      'v' :: '1' :: '=' :: hexEncode (mac H secret (formatInt (unix ts)) id event body) := by
    intro hm
    simp only [List.mem_cons, Char.reduceEq, false_or] at hm
    exact (hhex _ hm).2 rfl
  rw [fields, htext, List.splitOn_append_cons_self_of_not_mem hfirst,
    List.splitOn_eq_singleton hsecond, List.foldl_cons, List.foldl_cons, List.foldl_nil,
    read_stamp _ fun c hc => (hstamp c hc).1, read_rawMAC _ fun c hc => (hhex c hc).1]
  rfl

theorem parseSignature_eq {header : String} {secs : Int} {got : List UInt8}
    (hstamp : (fields header).stamp ≠ "") (hraw : (fields header).rawMAC ≠ "")
    (hsecs : Decimal.parse (fields header).stamp.toList = some secs)
    (hgot : hexDecode (fields header).rawMAC.toList = some got) :
    parseSignature header = .ok ((fields header).stamp, secs, got) := by
  simp [parseSignature, hstamp, hraw, hsecs, hgot]

theorem parseSignature_ok {header stamp : String} {secs : Int} {got : List UInt8}
    (h : parseSignature header = .ok (stamp, secs, got)) :
    stamp = (fields header).stamp ∧ Decimal.parse stamp.toList = some secs ∧
      hexDecode (fields header).rawMAC.toList = some got := by
  simp only [parseSignature] at h
  split at h
  · cases h
  · split at h
    · rename_i secs' mac' hsecs hmac
      cases h
      exact ⟨rfl, hsecs, hmac⟩
    · cases h

/-- The receiver's clock and the stamp are no further apart than the tolerance, as far as a
duration can tell: the longest one stands for every longer wait. -/
def Fresh (now secs tolerance : Int) : Prop :=
  -tolerance ≤ now - secs * 1000000000 ∧
    (now - secs * 1000000000 ≤ tolerance ∨ tolerance = maxDuration)

instance (now secs tolerance : Int) : Decidable (Fresh now secs tolerance) :=
  inferInstanceAs (Decidable (_ ∧ (_ ∨ _)))

theorem fresh_iff (now secs : Int) {tolerance : Int} (hlow : 0 ≤ tolerance) (hhigh : tolerance ≤ maxDuration) :
    ¬ (tolerance < sub now (secs * 1000000000) ∨
      sub now (secs * 1000000000) < wrap64 (-tolerance)) ↔ Fresh now secs tolerance := by
  have hwrap : wrap64 (-tolerance) = -tolerance := by
    unfold maxDuration at hhigh
    exact wrap64_of_fits (by omega) (by omega)
  rw [hwrap]
  unfold sub Fresh
  unfold maxDuration at *
  split
  · omega
  · split <;> omega

theorem verify_ok_iff {H : Hmac} {secret header event : String} {id now tolerance : Int}
    {body : List UInt8} (hlow : 0 ≤ tolerance) (hhigh : tolerance ≤ maxDuration) :
    verify H secret header id event body now tolerance = .ok () ↔
      ∃ stamp secs got, parseSignature header = .ok (stamp, secs, got) ∧
        Fresh now secs tolerance ∧ got = mac H secret stamp id event body := by
  cases hp : parseSignature header with
  | error e => simp [verify, hp]
  | ok r =>
    obtain ⟨stamp, secs, got⟩ := r
    have hfresh := fresh_iff now secs hlow hhigh
    simp only [verify, hp]
    constructor
    · intro h
      split at h
      · cases h
      · rename_i hstale
        split at h
        · cases h
        · rename_i hgood
          exact ⟨stamp, secs, got, rfl, hfresh.mp hstale, not_not.mp hgood⟩
    · rintro ⟨stamp', secs', got', heq, hf, hgot⟩
      cases heq
      rw [if_neg (hfresh.mpr hf), if_neg (not_not.mpr hgot)]

/-- The seconds of the years 1 to 9999. -/
def Representable (secs : Int) : Prop := -62135596800 ≤ secs ∧ secs < 253402300800

instance (secs : Int) : Decidable (Representable secs) := inferInstanceAs (Decidable (_ ∧ _))

theorem parse_unix {ts : Int} (h : Representable (unix ts)) :
    Decimal.parse (formatInt (unix ts)).toList = some (unix ts) := by
  unfold Representable at h
  rw [formatInt, String.toList_ofList]
  apply Decimal.parse_format <;> omega

theorem formatInt_ne_empty (n : Int) : formatInt n ≠ "" := by
  intro h
  have hnil := congrArg String.toList h
  rw [formatInt, String.toList_ofList] at hnil
  exact Decimal.format_ne_nil n hnil

/-- A header with the MAC of one delivery verifies exactly that delivery, under its own stamp
and near its time. -/
theorem verify_copy_iff {H : Hmac} {secret event event' header : String}
    {ts id id' now tolerance : Int} {body body' : List UInt8} (hts : Representable (unix ts))
    (he : 10 ∉ bytes event) (he' : 10 ∉ bytes event')
    (hmac : hexDecode (fields header).rawMAC.toList =
      some (mac H secret (formatInt (unix ts)) id event body))
    (hlow : 0 ≤ tolerance) (hhigh : tolerance ≤ maxDuration) :
    verify H secret header id' event' body' now tolerance = .ok () ↔
      (fields header).stamp = formatInt (unix ts) ∧ id' = id ∧ event' = event ∧ body' = body ∧
        Fresh now (unix ts) tolerance := by
  rw [verify_ok_iff hlow hhigh]
  constructor
  · rintro ⟨stamp, secs, got, hp, hfresh, hgot⟩
    obtain ⟨hstamp, hsecs, hraw⟩ := parseSignature_ok hp
    rw [hmac, Option.some.injEq] at hraw
    have hnum := Decimal.numeral_of_parse hsecs
    have hsame : mac H secret (String.ofList (Decimal.format (unix ts))) id event body =
        mac H secret (String.ofList stamp.toList) id' event' body' := by
      rw [String.ofList_toList, ← hgot, ← hraw]
      rfl
    obtain ⟨hcs, hid, hevent, hbody⟩ := mac_inj (Decimal.numeral_format _) hnum he he' hsame
    have hstamp' : stamp = formatInt (unix ts) := by
      rw [formatInt, hcs, String.ofList_toList]
    rw [hstamp', parse_unix hts, Option.some.injEq] at hsecs
    exact ⟨hstamp ▸ hstamp', hid.symm, hevent.symm, hbody.symm, hsecs ▸ hfresh⟩
  · rintro ⟨hstamp, rfl, rfl, rfl, hfresh⟩
    have hraw : (fields header).rawMAC ≠ "" := by
      intro hnil
      rw [hnil] at hmac
      have hempty := (Option.some.inj hmac).symm
      exact H.nonempty _ _ hempty
    refine ⟨_, unix ts, _, parseSignature_eq ?_ hraw ?_ hmac, hfresh, ?_⟩
    · rw [hstamp]
      exact formatInt_ne_empty _
    · rw [hstamp]
      exact parse_unix hts
    · rw [hstamp]

theorem verify_sign_iff {H : Hmac} {secret event : String} {ts id now tolerance : Int}
    {body : List UInt8} (hts : Representable (unix ts)) (he : 10 ∉ bytes event)
    (hlow : 0 ≤ tolerance) (hhigh : tolerance ≤ maxDuration) :
    verify H secret (sign H secret ts id event body) id event body now tolerance = .ok () ↔
      Fresh now (unix ts) tolerance := by
  have hfields := fields_sign H secret event ts id body
  have hmac : hexDecode (fields (sign H secret ts id event body)).rawMAC.toList =
      some (mac H secret (formatInt (unix ts)) id event body) := by
    rw [hfields, String.toList_ofList, hexDecode_hexEncode]
  rw [verify_copy_iff hts he he hmac hlow hhigh]
  simp [hfields]

/-- Whoever holds a signed delivery can present it as nothing else and at no other time. -/
theorem signature_exact {H : Hmac} {secret event : String} {ts id now tolerance : Int}
    {body : List UInt8} (hts : Representable (unix ts)) (he : 10 ∉ bytes event)
    (hlow : 0 ≤ tolerance) (hhigh : tolerance ≤ maxDuration) :
    (∀ header id' event' body', 10 ∉ bytes event' →
      hexDecode (fields header).rawMAC.toList =
        some (mac H secret (formatInt (unix ts)) id event body) →
      (verify H secret header id' event' body' now tolerance = .ok () ↔
        (fields header).stamp = formatInt (unix ts) ∧ id' = id ∧ event' = event ∧ body' = body ∧
          Fresh now (unix ts) tolerance)) ∧
    (verify H secret (sign H secret ts id event body) id event body now tolerance = .ok () ↔
      Fresh now (unix ts) tolerance) :=
  ⟨fun _ _ _ _ he' hmac => verify_copy_iff hts he he' hmac hlow hhigh,
    verify_sign_iff hts he hlow hhigh⟩

/-- An injective function to sign with. -/
def someHmac : Hmac where
  sum key message := key.length.toUInt8 :: message
  injective _ _ _ h := (List.cons.inj h).2
  nonempty _ _ := List.cons_ne_nil _ _

theorem signature_exact_created :
    verify someHmac "k" (sign someHmac "k" 1000000000 7 "user.created" [123]) 7 "user.created"
      [123] 2000000000 1000000000 = .ok () :=
  (signature_exact (by decide) (by decide) (by decide) (by decide)).2.mpr (by decide)

/-- With the longest tolerance there is, a signature never goes stale. -/
theorem longest_tolerance_accepts_any_age :
    verify someHmac "k" (sign someHmac "k" 1000000000 7 "user.created" [123]) 7 "user.created"
        [123] 10000000000000000000 maxDuration = .ok () ∧
      ¬ (10000000000000000000 - unix 1000000000 * 1000000000 ≤ maxDuration) :=
  ⟨(verify_sign_iff (by decide) (by decide) (by decide) (by decide)).mpr (by decide), by decide⟩

end Scimage.Webhook
