import Mathlib.Data.List.Basic

/-! JSON values as a text spells them, and the strings they denote. -/
namespace Json

/-! ### Strings -/

/-- What may stand in a string literal as itself. -/
def isPlain (c : Char) : Bool := 32 ≤ c.toNat && c != '"' && c != '\\'

inductive Short where
  | quote | backslash | slash | backspace | formFeed | newline | carriage | tab
  deriving DecidableEq

/-- One character of a string literal, as it is spelt. -/
inductive Piece where
  | plain (c : {c : Char // isPlain c = true})
  | short (e : Short)
  | unit (n : Fin 65536)
  deriving DecidableEq

abbrev Text := List Piece

def Short.char : Short → Char
  | .quote => '"'
  | .backslash => '\\'
  | .slash => '/'
  | .backspace => Char.ofNat 8
  | .formFeed => Char.ofNat 12
  | .newline => '\n'
  | .carriage => '\r'
  | .tab => '\t'

def isHigh (n : Fin 65536) : Bool := 0xD800 ≤ n.val && n.val < 0xDC00

def isLow (n : Fin 65536) : Bool := 0xDC00 ≤ n.val && n.val < 0xE000

def replacement : Char := Char.ofNat 0xFFFD

/-- A UTF-16 unit on its own. -/
def unitChar (n : Fin 65536) : Char := if isHigh n || isLow n then replacement else Char.ofNat n.val

def pairChar (hi lo : Fin 65536) : Char :=
  Char.ofNat (0x10000 + (hi.val - 0xD800) * 1024 + (lo.val - 0xDC00))

/-- A surrogate without its other half denotes the replacement character. -/
def Text.chars : Text → List Char
  | [] => []
  | .plain c :: t => c.val :: Text.chars t
  | .short e :: t => e.char :: Text.chars t
  | .unit n :: .unit m :: t =>
    if isHigh n && isLow m then pairChar n m :: Text.chars t
    else unitChar n :: Text.chars (.unit m :: t)
  | .unit n :: t => unitChar n :: Text.chars t

/-- The string a literal denotes. -/
def Text.string (t : Text) : String := String.ofList t.chars

theorem chars_unit {n : Fin 65536} (h : isHigh n = false) (t : Text) :
    Text.chars (.unit n :: t) = unitChar n :: Text.chars t := by
  cases t with
  | nil => rfl
  | cons p t => cases p <;> simp [Text.chars, h]

/-- The encoder's short escapes. -/
def Short.of? (c : Char) : Option Short :=
  if c = '"' then some .quote
  else if c = '\\' then some .backslash
  else if c = Char.ofNat 8 then some .backspace
  else if c = Char.ofNat 12 then some .formFeed
  else if c = '\n' then some .newline
  else if c = '\r' then some .carriage
  else if c = '\t' then some .tab
  else none

/-- What the encoder spells as a unit although it could stand as itself. -/
def isMarkup (c : Char) : Bool :=
  c == '<' || c == '>' || c == '&' || c.toNat == 0x2028 || c.toNat == 0x2029

local instance unitCount : @NeZero Nat (@Zero.ofOfNat0 Nat (instOfNatNat 0)) 65536 := ⟨Nat.succ_ne_zero 65535⟩

def Piece.unitOf (c : Char) : Piece := .unit (Fin.ofNat 65536 c.toNat)

def Piece.of (c : Char) : Piece :=
  match Short.of? c with
  | some e => .short e
  | none =>
    if isMarkup c then .unitOf c
    else if h : isPlain c = true then .plain ⟨c, h⟩
    else .unitOf c

def quote (s : String) : Text := s.toList.map Piece.of

theorem short_of_char {c : Char} {e : Short} (h : Short.of? c = some e) : e.char = c := by
  unfold Short.of? at h
  grind [Short.char]

theorem unitChar_of_small {c : Char} (h : c.toNat < 0xD800) :
    isHigh (Fin.ofNat 65536 c.toNat) = false ∧ unitChar (Fin.ofNat 65536 c.toNat) = c := by
  have hval : (Fin.ofNat 65536 c.toNat).val = c.toNat := by
    simp only [Fin.ofNat]
    omega
  have hhigh : isHigh (Fin.ofNat 65536 c.toNat) = false := by
    simp only [isHigh, hval, Bool.and_eq_false_iff, decide_eq_false_iff_not]
    omega
  have hlow : isLow (Fin.ofNat 65536 c.toNat) = false := by
    simp only [isLow, hval, Bool.and_eq_false_iff, decide_eq_false_iff_not]
    omega
  refine ⟨hhigh, ?_⟩
  rw [unitChar, hhigh, hlow, hval]
  exact Char.ofNat_toNat c

theorem small_of_markup {c : Char} (h : isMarkup c = true) : c.toNat < 0xD800 := by
  simp only [isMarkup, Bool.or_eq_true, beq_iff_eq] at h
  rcases h with (((rfl | rfl) | rfl) | h) | h
  · decide
  · decide
  · decide
  · omega
  · omega

theorem small_of_control {c : Char} (hs : Short.of? c = none) (h : isPlain c = false) :
    c.toNat < 0xD800 := by
  have hquote : c ≠ '"' := by
    rintro rfl
    cases hs
  have hback : c ≠ '\\' := by
    rintro rfl
    cases hs
  simp [isPlain, hquote, hback] at h
  omega

theorem chars_of (c : Char) (t : Text) : Text.chars (.of c :: t) = c :: Text.chars t := by
  unfold Piece.of
  split
  · rename_i e he
    rw [Text.chars, short_of_char he]
  · rename_i hnone
    split
    · rename_i hm
      obtain ⟨hhigh, hc⟩ := unitChar_of_small (small_of_markup hm)
      rw [Piece.unitOf, chars_unit hhigh, hc]
    · split
      · rfl
      · rename_i hp
        obtain ⟨hhigh, hc⟩ := unitChar_of_small (small_of_control hnone (by simpa using hp))
        rw [Piece.unitOf, chars_unit hhigh, hc]

theorem chars_map_of (cs : List Char) : Text.chars (cs.map Piece.of) = cs := by
  induction cs with
  | nil => rfl
  | cons c cs ih => rw [List.map_cons, chars_of, ih]

/-- The encoder's literal denotes the string it was made from. -/
@[simp] theorem string_quote (s : String) : (quote s).string = s := by
  rw [Text.string, quote, chars_map_of, String.ofList_toList]

/-! ### Values -/

inductive Digits where
  | start | minus | zero | int | point | frac | mark | sign | exp
  deriving DecidableEq

/-- The grammar of numbers, one character at a time. -/
def Digits.next (st : Digits) (c : Char) : Option Digits :=
  match st with
  | .start => if c = '-' then some .minus else Digits.next.first c
  | .minus => first c
  | .zero => point c
  | .int => if c.isDigit then some .int else point c
  | .point => if c.isDigit then some .frac else none
  | .frac => if c.isDigit then some .frac else mark c
  | .mark => if c = '+' || c = '-' then some .sign else if c.isDigit then some .exp else none
  | .sign => if c.isDigit then some .exp else none
  | .exp => if c.isDigit then some .exp else none
where
  first (c : Char) : Option Digits :=
    if c = '0' then some .zero else if c.isDigit then some .int else none
  mark (c : Char) : Option Digits := if c = 'e' || c = 'E' then some .mark else none
  point (c : Char) : Option Digits := if c = '.' then some .point else mark c

def Digits.final : Digits → Bool
  | .zero | .int | .frac | .exp => true
  | .start | .minus | .point | .mark | .sign => false

def isNumber (cs : List Char) : Bool :=
  match cs.foldlM Digits.next .start with
  | some st => st.final
  | none => false

abbrev Number := {cs : List Char // isNumber cs = true}

inductive Value where
  | null
  | bool (b : Bool)
  | num (n : Number)
  | str (s : Text)
  | arr (xs : List Value)
  | obj (ms : List (Text × Value))

/-! ### Respelling markup -/

def Piece.escape : Piece → Piece
  | .plain c => if isMarkup c.val then .unitOf c.val else .plain c
  | .short e => .short e
  | .unit n => .unit n

def Text.escape (t : Text) : Text := t.map Piece.escape

mutual

/-- `json.Marshal` respells what is already JSON text, so that it can stand in HTML. -/
def Value.escape : Value → Value
  | .str s => .str s.escape
  | .arr xs => .arr (escapeAll xs)
  | .obj ms => .obj (escapeMembers ms)
  | .null => .null
  | .bool b => .bool b
  | .num n => .num n

def escapeAll : List Value → List Value
  | [] => []
  | x :: xs => x.escape :: escapeAll xs

def escapeMembers : List (Text × Value) → List (Text × Value)
  | [] => []
  | (k, x) :: ms => (k.escape, x.escape) :: escapeMembers ms

end

theorem isLow_of_markup {c : Char} (h : isMarkup c = true) :
    isLow (Fin.ofNat 65536 c.toNat) = false := by
  have hsmall := small_of_markup h
  simp only [isLow, Fin.ofNat, Bool.and_eq_false_iff, decide_eq_false_iff_not]
  omega

theorem chars_escape_plain (c : {c : Char // isPlain c = true}) (t : Text) :
    Text.chars ((Piece.plain c).escape :: t) = c.val :: Text.chars t := by
  by_cases hm : isMarkup c.val = true
  · obtain ⟨hhigh, hc⟩ := unitChar_of_small (small_of_markup hm)
    rw [Piece.escape, if_pos hm, Piece.unitOf, chars_unit hhigh, hc]
  · rw [Piece.escape, if_neg hm, Text.chars]

theorem chars_unit_escape (n : Fin 65536) (c : {c : Char // isPlain c = true}) (t : Text) :
    Text.chars (.unit n :: (Piece.plain c).escape :: t) =
      unitChar n :: Text.chars ((Piece.plain c).escape :: t) := by
  by_cases hm : isMarkup c.val = true
  · have hlow := isLow_of_markup hm
    simp only [Piece.escape, hm, if_true, Piece.unitOf, Text.chars, hlow, Bool.and_false,
      Bool.false_eq_true, if_false]
  · simp [Piece.escape, hm, Text.chars]

/-- Respelt, a literal denotes the same string. -/
theorem chars_escape (t : Text) : t.escape.chars = t.chars := by
  induction t using Text.chars.induct with
  | case1 => rfl
  | case2 c t ih =>
    have hcons : Text.escape (.plain c :: t) = (Piece.plain c).escape :: Text.escape t := rfl
    rw [hcons, chars_escape_plain, ih, Text.chars]
  | case3 e t ih =>
    have hcons : Text.escape (.short e :: t) = .short e :: Text.escape t := rfl
    rw [hcons, Text.chars, ih, Text.chars]
  | case4 n m t hpair ih =>
    have hcons : Text.escape (.unit n :: .unit m :: t) = .unit n :: .unit m :: Text.escape t := rfl
    rw [hcons, Text.chars, Text.chars, if_pos hpair, if_pos hpair, ih]
  | case5 n m t hpair ih =>
    have hcons : Text.escape (.unit n :: .unit m :: t) = .unit n :: .unit m :: Text.escape t := rfl
    have hrest : Text.escape (.unit m :: t) = .unit m :: Text.escape t := rfl
    rw [hrest] at ih
    rw [hcons, Text.chars, Text.chars, if_neg hpair, if_neg hpair, ih]
  | case6 n t hunit ih =>
    cases t with
    | nil => rfl
    | cons p t =>
      cases p with
      | plain c =>
        have hcons : Text.escape (.unit n :: .plain c :: t) =
          .unit n :: (Piece.plain c).escape :: Text.escape t := rfl
        have hrest : Text.escape (.plain c :: t) = (Piece.plain c).escape :: Text.escape t := rfl
        rw [hrest] at ih
        rw [hcons, chars_unit_escape, ih]
        rfl
      | short e =>
        have hcons : Text.escape (.unit n :: .short e :: t) = .unit n :: .short e :: Text.escape t := rfl
        have hrest : Text.escape (.short e :: t) = .short e :: Text.escape t := rfl
        rw [hrest] at ih
        rw [hcons, Text.chars, ih]
        · rfl
        · intro m t' heq
          cases heq
      | unit m => exact (hunit m t rfl).elim

@[simp] theorem string_escape (t : Text) : t.escape.string = t.string := by
  rw [Text.string, chars_escape, Text.string]

/-! ### Respelling twice -/

theorem piece_escape_escape (p : Piece) : p.escape.escape = p.escape := by
  cases p with
  | plain c => by_cases hm : isMarkup c.val = true <;> simp [Piece.escape, hm, Piece.unitOf]
  | _ => rfl

theorem text_escape_escape (t : Text) : t.escape.escape = t.escape := by
  rw [Text.escape, Text.escape, List.map_map]
  apply List.map_congr_left
  intro p _
  exact piece_escape_escape p

mutual

@[simp] theorem escape_escape (v : Value) : v.escape.escape = v.escape := by
  match v with
  | .str s => rw [Value.escape, Value.escape, text_escape_escape]
  | .arr xs => rw [Value.escape, Value.escape, escapeAll_escapeAll xs]
  | .obj ms => rw [Value.escape, Value.escape, escapeMembers_escapeMembers ms]
  | .null | .bool _ | .num _ => rfl

theorem escapeAll_escapeAll (xs : List Value) : escapeAll (escapeAll xs) = escapeAll xs := by
  match xs with
  | [] => rfl
  | x :: xs => rw [escapeAll, escapeAll, escape_escape x, escapeAll_escapeAll xs]

theorem escapeMembers_escapeMembers (ms : List (Text × Value)) :
    escapeMembers (escapeMembers ms) = escapeMembers ms := by
  match ms with
  | [] => rfl
  | (k, x) :: ms =>
    rw [escapeMembers, escapeMembers, text_escape_escape, escape_escape x, escapeMembers_escapeMembers ms]

end

end Json
