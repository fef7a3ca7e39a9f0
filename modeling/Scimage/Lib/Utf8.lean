import Mathlib.Data.List.ReduceOption

/-! Bytes as characters: what is no UTF-8 is read as the replacement character, byte by byte. -/
namespace Utf8

def replacement : Char := Char.ofNat 0xFFFD

def isCont (b : UInt8) : Bool := 0x80 ≤ b && b ≤ 0xBF

/-- The second byte keeps out overlong forms, surrogates and what is past the last plane. -/
def isSecond (first b : UInt8) : Bool :=
  if first = 0xE0 then 0xA0 ≤ b && b ≤ 0xBF
  else if first = 0xED then 0x80 ≤ b && b ≤ 0x9F
  else if first = 0xF0 then 0x90 ≤ b && b ≤ 0xBF
  else if first = 0xF4 then 0x80 ≤ b && b ≤ 0x8F
  else isCont b

/-- `utf8.DecodeRune`: the character at the front and how many bytes follow its first one. -/
def decodeRune (first : UInt8) (rest : List UInt8) : Char × Nat :=
  if first < 0x80 then (Char.ofNat first.toNat, 0)
  else if 0xC2 ≤ first ∧ first ≤ 0xDF then
    match rest with
    | b :: _ =>
      if isCont b then (Char.ofNat (first.toNat % 32 * 64 + b.toNat % 64), 1) else (replacement, 0)
    | [] => (replacement, 0)
  else if 0xE0 ≤ first ∧ first ≤ 0xEF then
    match rest with
    | b :: c :: _ =>
      if isSecond first b && isCont c then
        (Char.ofNat (first.toNat % 16 * 4096 + b.toNat % 64 * 64 + c.toNat % 64), 2)
      else (replacement, 0)
    | _ => (replacement, 0)
  else if 0xF0 ≤ first ∧ first ≤ 0xF4 then
    match rest with
    | b :: c :: d :: _ =>
      if isSecond first b && isCont c && isCont d then
        (Char.ofNat (first.toNat % 8 * 262144 + b.toNat % 64 * 4096 + c.toNat % 64 * 64 +
          d.toNat % 64), 3)
      else (replacement, 0)
    | _ => (replacement, 0)
  else (replacement, 0)

/-- The characters of a text, with `skip` bytes of the last one still to go. -/
def decode (skip : Nat) : List UInt8 → List Char
  | [] => []
  | b :: rest =>
    match skip with
    | skip + 1 => decode skip rest
    | 0 => (decodeRune b rest).1 :: decode (decodeRune b rest).2 rest

/-! ### What `decodeRune` answers -/

variable {first b c d : UInt8} {rest : List UInt8}

theorem isCont_iff : isCont b = true ↔ 0x80 ≤ b.toNat ∧ b.toNat ≤ 0xBF := by
  simp [isCont, UInt8.le_iff_toNat_le]

theorem isSecond_iff : isSecond first b = true ↔ 0x80 ≤ b.toNat ∧ b.toNat ≤ 0xBF ∧
    (first.toNat = 0xE0 → 0xA0 ≤ b.toNat) ∧ (first.toNat = 0xED → b.toNat ≤ 0x9F) ∧
    (first.toNat = 0xF0 → 0x90 ≤ b.toNat) ∧ (first.toNat = 0xF4 → b.toNat ≤ 0x8F) := by
  unfold isSecond isCont
  simp only [← UInt8.toNat_inj]
  split_ifs with h1 h2 h3 h4 <;>
    simp only [Bool.and_eq_true, decide_eq_true_eq, UInt8.le_iff_toNat_le] at * <;>
    simp at * <;> omega

theorem decodeRune_one (h : first.toNat < 0x80) : decodeRune first rest = (Char.ofNat first.toNat, 0) := by
  unfold decodeRune
  rw [if_pos (UInt8.lt_iff_toNat_lt.mpr h)]

theorem decodeRune_two (h : 0xC2 ≤ first.toNat ∧ first.toNat ≤ 0xDF) (hb : isCont b = true) :
    decodeRune first (b :: rest) = (Char.ofNat (first.toNat % 32 * 64 + b.toNat % 64), 1) := by
  have hone : ¬ first < 0x80 := by simp [UInt8.lt_iff_toNat_lt]; omega
  have htwo : 0xC2 ≤ first ∧ first ≤ 0xDF := by simpa [UInt8.le_iff_toNat_le] using h
  unfold decodeRune
  rw [if_neg hone, if_pos htwo]
  exact if_pos hb

theorem decodeRune_three (h : 0xE0 ≤ first.toNat ∧ first.toNat ≤ 0xEF) (hb : isSecond first b = true)
    (hc : isCont c = true) : decodeRune first (b :: c :: rest) =
      (Char.ofNat (first.toNat % 16 * 4096 + b.toNat % 64 * 64 + c.toNat % 64), 2) := by
  have hone : ¬ first < 0x80 := by simp [UInt8.lt_iff_toNat_lt]; omega
  have htwo : ¬ (0xC2 ≤ first ∧ first ≤ 0xDF) := by simp [UInt8.le_iff_toNat_le]; omega
  have hthree : 0xE0 ≤ first ∧ first ≤ 0xEF := by simpa [UInt8.le_iff_toNat_le] using h
  unfold decodeRune
  rw [if_neg hone, if_neg htwo, if_pos hthree]
  exact if_pos (by rw [hb, hc]; rfl)

theorem decodeRune_four (h : 0xF0 ≤ first.toNat ∧ first.toNat ≤ 0xF4) (hb : isSecond first b = true)
    (hc : isCont c = true) (hd : isCont d = true) : decodeRune first (b :: c :: d :: rest) =
      (Char.ofNat (first.toNat % 8 * 262144 + b.toNat % 64 * 4096 + c.toNat % 64 * 64 + d.toNat % 64),
        3) := by
  have hone : ¬ first < 0x80 := by simp [UInt8.lt_iff_toNat_lt]; omega
  have htwo : ¬ (0xC2 ≤ first ∧ first ≤ 0xDF) := by simp [UInt8.le_iff_toNat_le]; omega
  have hthree : ¬ (0xE0 ≤ first ∧ first ≤ 0xEF) := by simp [UInt8.le_iff_toNat_le]; omega
  have hfour : 0xF0 ≤ first ∧ first ≤ 0xF4 := by simpa [UInt8.le_iff_toNat_le] using h
  unfold decodeRune
  rw [if_neg hone, if_neg htwo, if_neg hthree, if_pos hfour]
  exact if_pos (by rw [hb, hc, hd]; rfl)

/-- A number that is a character's. -/
theorem toNat_ofNat {n : Nat} (h : n < 0xD800 ∨ 0xDFFF < n ∧ n < 0x110000) :
    (Char.ofNat n).val.toNat = n := by
  have hvalid : n.isValidChar := h
  rw [Char.ofNat, dif_pos hvalid]
  exact UInt32.toNat_ofNatLT

theorem encodeChar_one {n : Nat} (h : n < 0x80) : String.utf8EncodeChar (Char.ofNat n) = [UInt8.ofNat n] := by
  have hn : (Char.ofNat n).val.toNat = n := toNat_ofNat (by omega)
  rw [String.utf8EncodeChar, hn, if_pos (by omega)]

theorem byte_eq {n : Nat} (h : b.toNat = n) : UInt8.ofNat n = b := by
  rw [← h, UInt8.ofNat_toNat]

theorem encodeChar_two (h : 0xC2 ≤ first.toNat ∧ first.toNat ≤ 0xDF) (hb : isCont b = true) :
    String.utf8EncodeChar (Char.ofNat (first.toNat % 32 * 64 + b.toNat % 64)) = [first, b] := by
  rw [isCont_iff] at hb
  rw [String.utf8EncodeChar, toNat_ofNat (by omega), if_neg (by omega), if_pos (by omega),
    byte_eq (b := first) (by omega), byte_eq (b := b) (by omega)]

theorem encodeChar_three (h : 0xE0 ≤ first.toNat ∧ first.toNat ≤ 0xEF) (hb : isSecond first b = true)
    (hc : isCont c = true) : String.utf8EncodeChar
      (Char.ofNat (first.toNat % 16 * 4096 + b.toNat % 64 * 64 + c.toNat % 64)) = [first, b, c] := by
  rw [isSecond_iff] at hb
  rw [isCont_iff] at hc
  rw [String.utf8EncodeChar, toNat_ofNat (by omega), if_neg (by omega), if_neg (by omega), if_pos (by omega),
    byte_eq (b := first) (by omega), byte_eq (b := b) (by omega), byte_eq (b := c) (by omega)]

theorem encodeChar_four (h : 0xF0 ≤ first.toNat ∧ first.toNat ≤ 0xF4) (hb : isSecond first b = true)
    (hc : isCont c = true) (hd : isCont d = true) : String.utf8EncodeChar
      (Char.ofNat (first.toNat % 8 * 262144 + b.toNat % 64 * 4096 + c.toNat % 64 * 64 + d.toNat % 64)) =
      [first, b, c, d] := by
  rw [isSecond_iff] at hb
  rw [isCont_iff] at hc hd
  rw [String.utf8EncodeChar, toNat_ofNat (by omega), if_neg (by omega), if_neg (by omega), if_neg (by omega),
    byte_eq (b := first) (by omega), byte_eq (b := b) (by omega), byte_eq (b := c) (by omega),
    byte_eq (b := d) (by omega)]

/-- `DecodeRune` answers the character at the front, or `RuneError` and a width of 1. -/
theorem decodeRune_cases (first : UInt8) (rest : List UInt8) :
    (∃ c t u, rest = t ++ u ∧ String.utf8EncodeChar c = first :: t ∧
      decodeRune first rest = (c, t.length) ∧ (0x80 ≤ first → t ≠ [])) ∨
    decodeRune first rest = (replacement, 0) ∧ 0x80 ≤ first := by
  by_cases hone : first < 0x80
  · have hlt := UInt8.lt_iff_toNat_lt.mp hone
    refine Or.inl ⟨_, [], rest, rfl, ?_, decodeRune_one hlt, fun hle => ?_⟩
    · rw [encodeChar_one hlt, byte_eq rfl]
    · exact (UInt8.not_le.mpr hone hle).elim
  have hfirst : 0x80 ≤ first := UInt8.not_lt.mp hone
  by_cases hstray : decodeRune first rest = (replacement, 0)
  · exact Or.inr ⟨hstray, hfirst⟩
  left
  by_cases htwo : 0xC2 ≤ first ∧ first ≤ 0xDF
  · have htwo' : 0xC2 ≤ first.toNat ∧ first.toNat ≤ 0xDF := by simpa [UInt8.le_iff_toNat_le] using htwo
    rcases rest with _ | ⟨b, rest⟩
    · exact (hstray (by unfold decodeRune; rw [if_neg hone, if_pos htwo])).elim
    by_cases hb : isCont b = true
    · exact ⟨_, [b], rest, rfl, encodeChar_two htwo' hb, decodeRune_two htwo' hb,
        fun _ => List.cons_ne_nil _ _⟩
    · refine (hstray ?_).elim
      unfold decodeRune
      rw [if_neg hone, if_pos htwo]
      exact if_neg hb
  by_cases hthree : 0xE0 ≤ first ∧ first ≤ 0xEF
  · have hthree' : 0xE0 ≤ first.toNat ∧ first.toNat ≤ 0xEF := by
      simpa [UInt8.le_iff_toNat_le] using hthree
    rcases rest with _ | ⟨b, _ | ⟨c, rest⟩⟩
    · exact (hstray (by unfold decodeRune; rw [if_neg hone, if_neg htwo, if_pos hthree])).elim
    · exact (hstray (by unfold decodeRune; rw [if_neg hone, if_neg htwo, if_pos hthree])).elim
    by_cases hbc : (isSecond first b && isCont c) = true
    · obtain ⟨hb, hc⟩ := (Bool.and_eq_true _ _).mp hbc
      exact ⟨_, [b, c], rest, rfl, encodeChar_three hthree' hb hc, decodeRune_three hthree' hb hc,
        fun _ => List.cons_ne_nil _ _⟩
    · refine (hstray ?_).elim
      unfold decodeRune
      rw [if_neg hone, if_neg htwo, if_pos hthree]
      exact if_neg hbc
  by_cases hfour : 0xF0 ≤ first ∧ first ≤ 0xF4
  · have hfour' : 0xF0 ≤ first.toNat ∧ first.toNat ≤ 0xF4 := by
      simpa [UInt8.le_iff_toNat_le] using hfour
    rcases rest with _ | ⟨b, _ | ⟨c, _ | ⟨d, rest⟩⟩⟩
    · exact (hstray (by unfold decodeRune; rw [if_neg hone, if_neg htwo, if_neg hthree, if_pos hfour])).elim
    · exact (hstray (by unfold decodeRune; rw [if_neg hone, if_neg htwo, if_neg hthree, if_pos hfour])).elim
    · exact (hstray (by unfold decodeRune; rw [if_neg hone, if_neg htwo, if_neg hthree, if_pos hfour])).elim
    by_cases hbcd : (isSecond first b && isCont c && isCont d) = true
    · obtain ⟨hbc, hd⟩ := (Bool.and_eq_true _ _).mp hbcd
      obtain ⟨hb, hc⟩ := (Bool.and_eq_true _ _).mp hbc
      exact ⟨_, [b, c, d], rest, rfl, encodeChar_four hfour' hb hc hd, decodeRune_four hfour' hb hc hd,
        fun _ => List.cons_ne_nil _ _⟩
    · refine (hstray ?_).elim
      unfold decodeRune
      rw [if_neg hone, if_neg htwo, if_neg hthree, if_pos hfour]
      exact if_neg hbcd
  refine (hstray ?_).elim
  unfold decodeRune
  rw [if_neg hone, if_neg htwo, if_neg hthree, if_neg hfour]

theorem byte_toNat {n : Nat} (h : n < 256) : (UInt8.ofNat n).toNat = n := by
  rw [UInt8.toNat_ofNat']
  exact Nat.mod_eq_of_lt h

/-- A character that is encoded is read again. -/
theorem decodeRune_encode (ch : Char) (rest : List UInt8) : ∃ first t,
    String.utf8EncodeChar ch = first :: t ∧ decodeRune first (t ++ rest) = (ch, t.length) ∧
      (0x80 ≤ first → t ≠ []) := by
  have hvalid : ch.val.toNat < 0xD800 ∨ 0xDFFF < ch.val.toNat ∧ ch.val.toNat < 0x110000 := ch.valid
  have hself : Char.ofNat ch.val.toNat = ch := Char.ofNat_toNat ch
  rw [String.utf8EncodeChar]
  generalize ch.val.toNat = v at *
  subst hself
  have hlow : ∀ n : Nat, (UInt8.ofNat (n % 64 + 128)).toNat = n % 64 + 128 := fun n => byte_toNat (by omega)
  have hcont : ∀ n : Nat, isCont (UInt8.ofNat (n % 64 + 128)) = true := by
    intro n
    rw [isCont_iff, hlow]
    omega
  split_ifs with hone htwo hthree
  · have hfirst : (UInt8.ofNat v).toNat = v := byte_toNat (by omega)
    refine ⟨_, [], rfl, ?_, fun hle => ?_⟩
    · rw [decodeRune_one (by omega), hfirst]
      rfl
    · rw [UInt8.le_iff_toNat_le, hfirst] at hle
      have hlit : UInt8.toNat 0x80 = 0x80 := rfl
      omega
  · have hfirst : (UInt8.ofNat (v / 64 % 32 + 192)).toNat = v / 64 % 32 + 192 := byte_toNat (by omega)
    refine ⟨_, _, rfl, ?_, fun _ => List.cons_ne_nil _ _⟩
    refine (decodeRune_two (by omega) (hcont v)).trans ?_
    have hsum : (v / 64 % 32 + 192) % 32 * 64 + (v % 64 + 128) % 64 = v := by omega
    rw [hfirst, hlow, hsum]
    rfl
  · have hfirst : (UInt8.ofNat (v / 4096 % 16 + 224)).toNat = v / 4096 % 16 + 224 := byte_toNat (by omega)
    have hsecond : isSecond (UInt8.ofNat (v / 4096 % 16 + 224)) (UInt8.ofNat (v / 64 % 64 + 128)) = true := by
      rw [isSecond_iff, hfirst, hlow]
      omega
    refine ⟨_, _, rfl, ?_, fun _ => List.cons_ne_nil _ _⟩
    refine (decodeRune_three (by omega) hsecond (hcont v)).trans ?_
    have hsum : (v / 4096 % 16 + 224) % 16 * 4096 + (v / 64 % 64 + 128) % 64 * 64 + (v % 64 + 128) % 64 =
        v := by omega
    rw [hfirst, hlow, hlow, hsum]
    rfl
  · have hfirst : (UInt8.ofNat (v / 262144 % 8 + 240)).toNat = v / 262144 % 8 + 240 := byte_toNat (by omega)
    have hsecond : isSecond (UInt8.ofNat (v / 262144 % 8 + 240)) (UInt8.ofNat (v / 4096 % 64 + 128)) =
        true := by
      rw [isSecond_iff, hfirst, hlow]
      omega
    refine ⟨_, _, rfl, ?_, fun _ => List.cons_ne_nil _ _⟩
    refine (decodeRune_four (by omega) hsecond (hcont (v / 64)) (hcont v)).trans ?_
    have hsum : (v / 262144 % 8 + 240) % 8 * 262144 + (v / 4096 % 64 + 128) % 64 * 4096 +
        (v / 64 % 64 + 128) % 64 * 64 + (v % 64 + 128) % 64 = v := by omega
    rw [hfirst, hlow, hlow, hlow, hsum]
    rfl

/-! ### Texts -/

def encode (cs : List Char) : List UInt8 := cs.flatMap String.utf8EncodeChar

/-- `utf8.ValidString`. -/
def Valid (s : List UInt8) : Prop := ∃ cs, encode cs = s

/-- `strings.ToValidUTF8`, with `skip` bytes of a character still to go; `invalid` says that the byte before
was no character's. -/
def toValidUTF8 (replacement : List UInt8) (invalid : Bool) (skip : Nat) : List UInt8 → List UInt8
  | [] => []
  | b :: rest =>
    match skip with
    | skip + 1 => b :: toValidUTF8 replacement invalid skip rest
    | 0 =>
      if 0x80 ≤ b ∧ (decodeRune b rest).2 = 0 then
        (if invalid then [] else replacement) ++ toValidUTF8 replacement true 0 rest
      else b :: toValidUTF8 replacement false (decodeRune b rest).2 rest

/-- A text taken apart into its characters and the bytes at which none begins. -/
inductive Cut : List UInt8 → List (Option Char) → Prop where
  | nil : Cut [] []
  | char (c : Char) {s : List UInt8} {ps : List (Option Char)} (h : Cut s ps) :
      Cut (String.utf8EncodeChar c ++ s) (some c :: ps)
  | stray (b : UInt8) {s : List UInt8} {ps : List (Option Char)}
      (hb : ∀ c t, b :: s ≠ String.utf8EncodeChar c ++ t) (h : Cut s ps) : Cut (b :: s) (none :: ps)

variable {s : List UInt8} {ps qs : List (Option Char)} {cs cs' : List Char}

theorem encode_cons (c : Char) (cs : List Char) : encode (c :: cs) = String.utf8EncodeChar c ++ encode cs :=
  List.flatMap_cons

theorem encode_append (cs cs' : List Char) : encode (cs ++ cs') = encode cs ++ encode cs' :=
  List.flatMap_append

/-- A byte at which no character begins is answered `RuneError`. -/
theorem decodeRune_stray (hb : ∀ c t, b :: s ≠ String.utf8EncodeChar c ++ t) :
    decodeRune b s = (replacement, 0) ∧ 0x80 ≤ b := by
  rcases decodeRune_cases b s with ⟨c, t, u, rfl, hc, -⟩ | hstray
  · refine (hb c u ?_).elim
    rw [hc]
    rfl
  · exact hstray

/-- Two characters at the front of a text are one. -/
theorem encodeChar_inj {c c' : Char} {s' : List UInt8}
    (h : String.utf8EncodeChar c ++ s = String.utf8EncodeChar c' ++ s') : c = c' ∧ s = s' := by
  obtain ⟨b, t, hc, hdecode, -⟩ := decodeRune_encode c s
  obtain ⟨b', t', hc', hdecode', -⟩ := decodeRune_encode c' s'
  rw [hc, hc', List.cons_append, List.cons_append] at h
  obtain ⟨rfl, hrest⟩ := List.cons.inj h
  rw [hrest, hdecode'] at hdecode
  obtain rfl : c' = c := congrArg Prod.fst hdecode
  rw [hc] at hc'
  obtain ⟨-, rfl⟩ := List.cons.inj hc'
  exact ⟨rfl, List.append_cancel_left hrest⟩

theorem encode_injective (h : encode cs = encode cs') : cs = cs' := by
  induction cs generalizing cs' with
  | nil =>
    cases cs' with
    | nil => rfl
    | cons c cs' =>
      rw [encode_cons] at h
      exact (String.utf8EncodeChar_ne_nil (List.append_eq_nil_iff.mp h.symm).1).elim
  | cons c cs ih =>
    cases cs' with
    | nil =>
      rw [encode_cons] at h
      exact (String.utf8EncodeChar_ne_nil (List.append_eq_nil_iff.mp h).1).elim
    | cons c' cs' =>
      rw [encode_cons, encode_cons] at h
      obtain ⟨rfl, hrest⟩ := encodeChar_inj h
      rw [ih hrest]

/-- Every text can be taken apart. -/
theorem exists_cut (s : List UInt8) : ∃ ps, Cut s ps := by
  induction hn : s.length using Nat.strongRecOn generalizing s with
  | ind n ih =>
    cases s with
    | nil => exact ⟨[], .nil⟩
    | cons b s =>
      by_cases hchar : ∃ c t, b :: s = String.utf8EncodeChar c ++ t
      · obtain ⟨c, t, hs⟩ := hchar
        have hlen := congrArg List.length hs
        have hpos := List.length_pos_iff.mpr (String.utf8EncodeChar_ne_nil (c := c))
        rw [List.length_append] at hlen
        obtain ⟨ps, hps⟩ := ih t.length (by omega) t rfl
        rw [hs]
        exact ⟨_, .char c hps⟩
      · obtain ⟨ps, hps⟩ := ih s.length (by simp [← hn]) s rfl
        exact ⟨_, .stray b (fun c t he => hchar ⟨c, t, he⟩) hps⟩

/-- There is one way to take a text apart. -/
theorem Cut.unique (h : Cut s ps) (h' : Cut s qs) : ps = qs := by
  induction h generalizing qs with
  | nil =>
    generalize hs : ([] : List UInt8) = s at h'
    cases h' with
    | nil => rfl
    | char c _ => exact (String.utf8EncodeChar_ne_nil (List.append_eq_nil_iff.mp hs.symm).1).elim
    | stray b _ _ => cases hs
  | char c h ih =>
    rename_i s ps
    generalize hs : String.utf8EncodeChar c ++ s = s' at h'
    cases h' with
    | nil => exact (String.utf8EncodeChar_ne_nil (List.append_eq_nil_iff.mp hs).1).elim
    | char c' h' =>
      obtain ⟨rfl, rfl⟩ := encodeChar_inj hs
      rw [ih h']
    | stray b hb _ => exact (hb c s hs.symm).elim
  | stray b hb h ih =>
    rename_i s ps
    generalize hs : b :: s = s' at h'
    cases h' with
    | nil => cases hs
    | char c _ => exact (hb c _ hs).elim
    | stray b' _ h' =>
      obtain ⟨-, rfl⟩ := List.cons.inj hs
      rw [ih h']

theorem cut_encode (cs : List Char) : Cut (encode cs) (cs.map some) := by
  induction cs with
  | nil => exact .nil
  | cons c cs ih =>
    rw [encode_cons]
    exact .char c ih

/-! ### What the functions make of a text that is taken apart -/

theorem decode_skip (t s : List UInt8) : decode t.length (t ++ s) = decode 0 s := by
  induction t with
  | nil => rfl
  | cons b t ih => exact ih

/-- Runes are the characters and a replacement for each stray byte. -/
theorem Cut.decode_eq (h : Cut s ps) : decode 0 s = ps.map fun p => p.getD replacement := by
  induction h with
  | nil => rfl
  | char c h ih =>
    rename_i s ps
    obtain ⟨b, t, hc, hdecode, -⟩ := decodeRune_encode c s
    rw [hc, List.cons_append, decode, hdecode, decode_skip, ih]
    rfl
  | stray b hb h ih =>
    obtain ⟨hdecode, -⟩ := decodeRune_stray hb
    rw [decode, hdecode, ih]
    rfl

theorem decode_encode (cs : List Char) : decode 0 (encode cs) = cs := by
  rw [(cut_encode cs).decode_eq, List.map_map]
  exact List.map_id cs

theorem toValidUTF8_skip (r t s : List UInt8) :
    toValidUTF8 r false t.length (t ++ s) = t ++ toValidUTF8 r false 0 s := by
  induction t with
  | nil => rfl
  | cons b t ih => exact congrArg (b :: ·) ih

/-- Without a replacement, no byte is added. -/
theorem toValidUTF8_subset {invalid : Bool} {skip : Nat} {x : UInt8}
    (h : x ∈ toValidUTF8 [] invalid skip s) : x ∈ s := by
  induction s generalizing invalid skip with
  | nil => exact h
  | cons b s ih =>
    cases skip with
    | succ skip =>
      rw [toValidUTF8] at h
      exact (List.mem_cons.mp h).elim (fun hb => hb ▸ List.mem_cons_self)
        fun hs => List.mem_cons_of_mem b (ih hs)
    | zero =>
      rw [toValidUTF8] at h
      split_ifs at h
      · exact List.mem_cons_of_mem b (ih h)
      · exact List.mem_cons_of_mem b (ih h)
      · exact (List.mem_cons.mp h).elim (fun hb => hb ▸ List.mem_cons_self)
          fun hs => List.mem_cons_of_mem b (ih hs)

/-- Without a replacement, the characters are what is kept. -/
theorem Cut.toValidUTF8_eq (h : Cut s ps) (invalid : Bool) :
    toValidUTF8 [] invalid 0 s = encode ps.reduceOption := by
  induction h generalizing invalid with
  | nil => rfl
  | char c h ih =>
    rename_i s ps
    obtain ⟨b, t, hc, hdecode, hlong⟩ := decodeRune_encode c s
    have hkeeps : ¬ (0x80 ≤ b ∧ (decodeRune b (t ++ s)).2 = 0) := by
      rintro ⟨hb, hzero⟩
      rw [hdecode] at hzero
      exact hlong hb (List.eq_nil_of_length_eq_zero hzero)
    rw [hc, List.cons_append, toValidUTF8, if_neg hkeeps, hdecode, toValidUTF8_skip, ih,
      List.reduceOption_cons_of_some, encode_cons, hc]
    rfl
  | stray b hb h ih =>
    obtain ⟨hdecode, hfirst⟩ := decodeRune_stray hb
    rw [toValidUTF8, if_pos ⟨hfirst, by rw [hdecode]⟩, ih, List.reduceOption_cons_of_none, ite_self]
    rfl

/-- The characters of a text, without its stray bytes. -/
def characters (s : List UInt8) : List Char := decode 0 (toValidUTF8 [] false 0 s)

theorem Cut.characters_eq (h : Cut s ps) : characters s = ps.reduceOption := by
  rw [characters, h.toValidUTF8_eq, decode_encode]

theorem characters_encode (cs : List Char) : characters (encode cs) = cs := by
  rw [(cut_encode cs).characters_eq, List.reduceOption, List.filterMap_map]
  exact List.filterMap_some

theorem toValidUTF8_characters (s : List UInt8) : toValidUTF8 [] false 0 s = encode (characters s) := by
  obtain ⟨ps, hps⟩ := exists_cut s
  rw [hps.toValidUTF8_eq, hps.characters_eq]

theorem valid_iff : Valid s ↔ encode (characters s) = s := by
  constructor
  · rintro ⟨cs, rfl⟩
    rw [characters_encode]
  · exact fun h => ⟨_, h⟩

instance : DecidablePred Valid := fun _ => decidable_of_iff _ valid_iff.symm

theorem zero_notMem_encodeChar {ch : Char} (h : ch ≠ Char.ofNat 0) : 0 ∉ String.utf8EncodeChar ch := by
  have hbyte : ∀ n : Nat, n % 256 ≠ 0 → 0 ≠ UInt8.ofNat n := by
    intro n hn he
    have hzero := congrArg UInt8.toNat he
    rw [UInt8.toNat_ofNat'] at hzero
    exact hn hzero.symm
  have hself : Char.ofNat ch.val.toNat = ch := Char.ofNat_toNat ch
  have hpos : ch.val.toNat ≠ 0 := by
    intro hzero
    rw [hzero] at hself
    exact h hself.symm
  rw [String.utf8EncodeChar]
  split_ifs with hone htwo hthree
  · simp only [List.mem_cons, List.not_mem_nil, or_false]
    exact hbyte _ (by omega)
  · simp only [List.mem_cons, List.not_mem_nil, or_false, not_or]
    exact ⟨hbyte _ (by omega), hbyte _ (by omega)⟩
  · simp only [List.mem_cons, List.not_mem_nil, or_false, not_or]
    exact ⟨hbyte _ (by omega), hbyte _ (by omega), hbyte _ (by omega)⟩
  · simp only [List.mem_cons, List.not_mem_nil, or_false, not_or]
    exact ⟨hbyte _ (by omega), hbyte _ (by omega), hbyte _ (by omega), hbyte _ (by omega)⟩

/-- Only the null character has a zero byte. -/
theorem zero_mem_encode : 0 ∈ encode cs ↔ Char.ofNat 0 ∈ cs := by
  rw [encode, List.mem_flatMap]
  constructor
  · rintro ⟨c, hc, hzero⟩
    by_contra hnull
    exact zero_notMem_encodeChar (fun he => hnull (he ▸ hc)) hzero
  · intro hc
    exact ⟨_, hc, by decide⟩

/-! ### A text that is cut off -/

theorem decodeRune_cont {b : UInt8} (hb : isCont b = true) (rest : List UInt8) :
    decodeRune b rest = (replacement, 0) := by
  rw [isCont_iff] at hb
  have hone : ¬ b < 0x80 := by simp [UInt8.lt_iff_toNat_lt]; omega
  have htwo : ¬ (0xC2 ≤ b ∧ b ≤ 0xDF) := by simp [UInt8.le_iff_toNat_le]; omega
  have hthree : ¬ (0xE0 ≤ b ∧ b ≤ 0xEF) := by simp [UInt8.le_iff_toNat_le]; omega
  have hfour : ¬ (0xF0 ≤ b ∧ b ≤ 0xF4) := by simp [UInt8.le_iff_toNat_le]; omega
  unfold decodeRune
  rw [if_neg hone, if_neg htwo, if_neg hthree, if_neg hfour]

theorem decode_conts {t : List UInt8} (h : ∀ b ∈ t, isCont b = true) :
    decode 0 t = List.replicate t.length replacement := by
  induction t with
  | nil => rfl
  | cons b t ih =>
    rw [decode, decodeRune_cont (h b List.mem_cons_self)]
    exact congrArg (replacement :: ·) (ih fun x hx => h x (List.mem_cons_of_mem b hx))

theorem encodeChar_tail {c : Char} {first : UInt8} {t : List UInt8}
    (h : String.utf8EncodeChar c = first :: t) : ∀ b ∈ t, isCont b = true := by
  have hcont : ∀ n : Nat, isCont (UInt8.ofNat (n % 64 + 128)) = true := by
    intro n
    rw [isCont_iff, byte_toNat (by omega)]
    omega
  rw [String.utf8EncodeChar] at h
  split_ifs at h <;> cases h <;> intro b hb <;>
    simp only [List.mem_cons, List.not_mem_nil, or_false] at hb
  · obtain rfl := hb
    exact hcont _
  · rcases hb with rfl | rfl
    · exact hcont _
    · exact hcont _
  · rcases hb with rfl | rfl | rfl
    · exact hcont _
    · exact hcont _
    · exact hcont _

/-- Of a character that is cut off, no byte is one. -/
theorem decode_broken {c : Char} {t u : List UInt8} (h : String.utf8EncodeChar c = t ++ u) (hu : u ≠ []) :
    decode 0 t = List.replicate t.length replacement := by
  cases t with
  | nil => rfl
  | cons b t =>
    have htail := encodeChar_tail h
    have hstray : decodeRune b t = (replacement, 0) ∧ 0x80 ≤ b := by
      refine decodeRune_stray fun c' t' ht => ?_
      have hboth : String.utf8EncodeChar c ++ [] = String.utf8EncodeChar c' ++ (t' ++ u) := by
        rw [List.append_nil, h, ht, List.append_assoc]
      obtain ⟨-, hnil⟩ := encodeChar_inj hboth
      exact hu (List.append_eq_nil_iff.mp hnil.symm).2
    rw [decode, hstray.1]
    exact congrArg (replacement :: ·) (decode_conts fun x hx => htail x (List.mem_append_left u hx))

/-- A text that is cut off reads as the whole does, up to stray bytes at its end. -/
theorem decode_take (n : Nat) (s : List UInt8) : ∃ p k t,
    decode 0 (s.take n) = p ++ List.replicate k replacement ∧ decode 0 s = p ++ t := by
  obtain ⟨ps, hps⟩ := exists_cut s
  induction hps generalizing n with
  | nil => exact ⟨[], 0, [], by rw [List.take_nil]; rfl, rfl⟩
  | char c h ih =>
    rename_i s ps
    rcases Nat.lt_or_ge n (String.utf8EncodeChar c).length with hn | hn
    · have hbroken : decode 0 ((String.utf8EncodeChar c).take n) = _ :=
        decode_broken (List.take_append_drop n _).symm fun hnil => by
          rw [List.drop_eq_nil_iff] at hnil
          omega
      rw [List.take_append_of_le_length (Nat.le_of_lt hn), hbroken]
      exact ⟨[], _, _, rfl, rfl⟩
    · obtain ⟨p, k, t, htake, hwhole⟩ := ih (n - (String.utf8EncodeChar c).length)
      have hread : ∀ s, decode 0 (String.utf8EncodeChar c ++ s) = c :: decode 0 s := by
        intro s
        obtain ⟨b, u, hc, hdecode, -⟩ := decodeRune_encode c s
        rw [hc, List.cons_append, decode, hdecode, decode_skip]
      rw [List.take_append, List.take_of_length_le hn, hread, hread, htake, hwhole]
      exact ⟨c :: p, k, t, rfl, rfl⟩
  | stray b hb h ih =>
    rename_i s ps
    cases n with
    | zero => exact ⟨[], 0, _, rfl, rfl⟩
    | succ n =>
      obtain ⟨p, k, t, htake, hwhole⟩ := ih n
      have hcut : ∀ c u, b :: s.take n ≠ String.utf8EncodeChar c ++ u := by
        intro c u he
        refine hb c (u ++ s.drop n) ?_
        rw [← List.append_assoc, ← he, List.cons_append, List.take_append_drop]
      rw [List.take_succ_cons, decode, decode, (decodeRune_stray hb).1, (decodeRune_stray hcut).1, htake, hwhole]
      exact ⟨replacement :: p, k, t, rfl, rfl⟩

end Utf8
