import Scimage.Lib.Json

/-! JSON texts: a scanner that takes one character at a time, and what the encoder writes. -/
namespace Json

/-! ### Scanning -/

/-- A container that waits for the value being read: the elements before it, last first, or the
members before it and its key. -/
inductive Frame where
  | elem (before : List Value)
  | field (before : List (Text × Value)) (key : Text)

/-- What a string literal is read for. -/
inductive Role where
  | value
  | key (before : List (Text × Value))

inductive Escape where
  | none
  | backslash
  | digits (ds : List (Fin 16))

/-- What may come next. -/
inductive Mode where
  | value
  | first
  | firstKey
  | key (before : List (Text × Value))
  | colon (before : List (Text × Value)) (key : Text)
  | nextElem (before : List Value)
  | nextField (before : List (Text × Value))
  | text (role : Role) (before : Text) (esc : Escape)
  | number (st : Digits) (before : List Char)
  | word (rest : List Char) (v : Value)
  | done (v : Value)

structure Scan where
  stack : List Frame
  mode : Mode

def maxNestingDepth : Nat := 10000

def Scan.start : Scan := ⟨[], .value⟩

def isSpace (c : Char) : Bool := c == ' ' || c == '\t' || c == '\r' || c == '\n'

local instance hexBase : @NeZero Nat (@Zero.ofOfNat0 Nat (instOfNatNat 0)) 16 := ⟨Nat.succ_ne_zero 15⟩
local instance unitSpan : @NeZero Nat (@Zero.ofOfNat0 Nat (instOfNatNat 0)) 65536 := ⟨Nat.succ_ne_zero 65535⟩

def hexValue (c : Char) : Option (Fin 16) :=
  let n := c.toNat
  if 48 ≤ n ∧ n ≤ 57 then some (Fin.ofNat 16 (n - 48))
  else if 97 ≤ n ∧ n ≤ 102 then some (Fin.ofNat 16 (n - 87))
  else if 65 ≤ n ∧ n ≤ 70 then some (Fin.ofNat 16 (n - 55))
  else none

def Short.ofLetter (c : Char) : Option Short :=
  if c = '"' then some .quote
  else if c = '\\' then some .backslash
  else if c = '/' then some .slash
  else if c = 'b' then some .backspace
  else if c = 'f' then some .formFeed
  else if c = 'n' then some .newline
  else if c = 'r' then some .carriage
  else if c = 't' then some .tab
  else none

def Short.letter : Short → Char
  | .quote => '"'
  | .backslash => '\\'
  | .slash => '/'
  | .backspace => 'b'
  | .formFeed => 'f'
  | .newline => 'n'
  | .carriage => 'r'
  | .tab => 't'

/-- A value is complete. -/
def close (stack : List Frame) (v : Value) : Scan :=
  match stack with
  | [] => ⟨[], .done v⟩
  | .elem before :: stack => ⟨stack, .nextElem (v :: before)⟩
  | .field before key :: stack => ⟨stack, .nextField ((key, v) :: before)⟩

def beginValue (stack : List Frame) (c : Char) : Option Scan :=
  if c = '"' then some ⟨stack, .text .value [] .none⟩
  else if c = '[' then
    if stack.length < maxNestingDepth then some ⟨.elem [] :: stack, .first⟩ else none
  else if c = '{' then
    if stack.length < maxNestingDepth then some ⟨stack, .firstKey⟩ else none
  else if c = 't' then some ⟨stack, .word ['r', 'u', 'e'] (.bool true)⟩
  else if c = 'f' then some ⟨stack, .word ['a', 'l', 's', 'e'] (.bool false)⟩
  else if c = 'n' then some ⟨stack, .word ['u', 'l', 'l'] .null⟩
  else (Digits.start.next c).map fun st => ⟨stack, .number st [c]⟩

def stepText (stack : List Frame) (role : Role) (before : Text) (c : Char) : Escape → Option Scan
  | .none =>
    if c = '"' then
      match role with
      | .value => some (close stack (.str before.reverse))
      | .key ms => some ⟨stack, .colon ms before.reverse⟩
    else if c = '\\' then some ⟨stack, .text role before .backslash⟩
    else if h : isPlain c = true then some ⟨stack, .text role (.plain ⟨c, h⟩ :: before) .none⟩
    else none
  | .backslash =>
    if c = 'u' then some ⟨stack, .text role before (.digits [])⟩
    else (Short.ofLetter c).map fun e => ⟨stack, .text role (.short e :: before) .none⟩
  | .digits ds =>
    (hexValue c).map fun d =>
      match ds with
      | [a, b, e] => ⟨stack, .text role
          (.unit (Fin.ofNat 65536 (4096 * a.val + 256 * b.val + 16 * e.val + d.val)) :: before) .none⟩
      | ds => ⟨stack, .text role before (.digits (ds ++ [d]))⟩

/-- After a value, in the container it belongs to. -/
def stepNext (stack : List Frame) (c : Char) : Mode → Option Scan
  | .nextElem before =>
    if c = ',' then some ⟨.elem before :: stack, .value⟩
    else if c = ']' then some (close stack (.arr before.reverse))
    else none
  | .nextField before =>
    if c = ',' then some ⟨stack, .key before⟩
    else if c = '}' then some (close stack (.obj before.reverse))
    else none
  | _ => none

def number? (before : List Char) : Option Number :=
  if h : isNumber before.reverse = true then some ⟨before.reverse, h⟩ else none

def step (s : Scan) (c : Char) : Option Scan :=
  match s.mode with
  | .value => if isSpace c then some s else beginValue s.stack c
  | .first =>
    if isSpace c then some s
    else if c = ']' then some (close s.stack.tail (.arr []))
    else beginValue s.stack c
  | .firstKey =>
    if isSpace c then some s
    else if c = '}' then some (close s.stack (.obj []))
    else if c = '"' then some ⟨s.stack, .text (.key []) [] .none⟩
    else none
  | .key before =>
    if isSpace c then some s
    else if c = '"' then some ⟨s.stack, .text (.key before) [] .none⟩
    else none
  | .colon before key =>
    if isSpace c then some s
    else if c = ':' then some ⟨.field before key :: s.stack, .value⟩
    else none
  | .nextElem _ | .nextField _ => if isSpace c then some s else stepNext s.stack c s.mode
  | .text role before esc => stepText s.stack role before c esc
  | .number st before =>
    match st.next c with
    | some st => some ⟨s.stack, .number st (c :: before)⟩
    | none =>
      -- The character after a number is not part of it.
      (number? before).bind fun n =>
        let s := close s.stack (.num n)
        if isSpace c then some s else stepNext s.stack c s.mode
  | .word rest v =>
    match rest with
    | [] => none
    | [d] => if c = d then some (close s.stack v) else none
    | d :: rest => if c = d then some ⟨s.stack, .word rest v⟩ else none
  | .done _ => if isSpace c then some s else none

def scan (s : Scan) (cs : List Char) : Option Scan := cs.foldlM step s

/-- The value, at the end of the input. -/
def Scan.finish (s : Scan) : Option Value :=
  match s with
  | ⟨[], .done v⟩ => some v
  | ⟨[], .number _ before⟩ => (number? before).map .num
  | _ => none

/-- `json.Unmarshal`, as far as the text goes: one value with spaces around it. -/
def read (cs : List Char) : Option Value := (scan .start cs).bind Scan.finish

theorem scan_append (s : Scan) (xs ys : List Char) :
    scan s (xs ++ ys) = (scan s xs).bind fun t => scan t ys := by
  simp only [scan, List.foldlM_append]
  rfl

@[simp] theorem scan_nil (s : Scan) : scan s [] = some s := rfl

@[simp] theorem scan_cons (s : Scan) (c : Char) (cs : List Char) :
    scan s (c :: cs) = (step s c).bind fun t => scan t cs := rfl

/-! ### Writing -/

def hexDigit (n : Fin 16) : Char :=
  if n.val < 10 then Char.ofNat (48 + n.val) else Char.ofNat (87 + n.val)

def Piece.write : Piece → List Char
  | .plain c => [c.val]
  | .short e => ['\\', e.letter]
  | .unit n => ['\\', 'u', hexDigit (Fin.ofNat 16 (n.val / 4096)),
      hexDigit (Fin.ofNat 16 (n.val / 256)), hexDigit (Fin.ofNat 16 (n.val / 16)),
      hexDigit (Fin.ofNat 16 n.val)]

def Text.write (t : Text) : List Char := '"' :: (t.flatMap Piece.write ++ ['"'])

mutual

def Value.write : Value → List Char
  | .null => ['n', 'u', 'l', 'l']
  | .bool true => ['t', 'r', 'u', 'e']
  | .bool false => ['f', 'a', 'l', 's', 'e']
  | .num n => n.val
  | .str s => s.write
  | .arr [] => ['[', ']']
  | .arr (x :: xs) => '[' :: (x.write ++ writeElems xs)
  | .obj [] => ['{', '}']
  | .obj ((k, x) :: ms) => '{' :: (k.write ++ ':' :: (x.write ++ writeMembers ms))

def writeElems : List Value → List Char
  | [] => [']']
  | x :: xs => ',' :: (x.write ++ writeElems xs)

def writeMembers : List (Text × Value) → List Char
  | [] => ['}']
  | (k, x) :: ms => ',' :: (k.write ++ ':' :: (x.write ++ writeMembers ms))

end

mutual

def Value.depth : Value → Nat
  | .arr xs => depthAll xs + 1
  | .obj ms => depthMembers ms + 1
  | .null | .bool _ | .num _ | .str _ => 0

def depthAll : List Value → Nat
  | [] => 0
  | x :: xs => Nat.max x.depth (depthAll xs)

def depthMembers : List (Text × Value) → Nat
  | [] => 0
  | (_, x) :: ms => Nat.max x.depth (depthMembers ms)

end

/-! ### What is written is read back -/

theorem hexValue_hexDigit (n : Fin 16) : hexValue (hexDigit n) = some n := by
  revert n
  decide

theorem combine_hexDigits (n : Fin 65536) :
    Fin.ofNat 65536 (4096 * (Fin.ofNat 16 (n.val / 4096)).val + 256 * (Fin.ofNat 16 (n.val / 256)).val +
      16 * (Fin.ofNat 16 (n.val / 16)).val + (Fin.ofNat 16 n.val).val) = n := by
  apply Fin.ext
  have hn := n.isLt
  simp only [Fin.ofNat]
  omega

theorem scan_piece (stack : List Frame) (role : Role) (before : Text) (p : Piece) :
    scan ⟨stack, .text role before .none⟩ p.write = some ⟨stack, .text role (p :: before) .none⟩ := by
  cases p with
  | plain c =>
    obtain ⟨c, hc⟩ := c
    have hquote : c ≠ '"' := by
      rintro rfl
      cases hc
    have hback : c ≠ '\\' := by
      rintro rfl
      cases hc
    simp [Piece.write, step, stepText, hquote, hback, hc]
  | short e => cases e <;> simp [Piece.write, step, stepText, Short.letter, Short.ofLetter]
  | unit n =>
    simp [Piece.write, step, stepText, hexValue_hexDigit]
    exact combine_hexDigits n

theorem scan_pieces (stack : List Frame) (role : Role) (before t : Text) :
    scan ⟨stack, .text role before .none⟩ (t.flatMap Piece.write) =
      some ⟨stack, .text role (t.reverse ++ before) .none⟩ := by
  induction t generalizing before with
  | nil => rfl
  | cons p t ih =>
    rw [List.flatMap_cons, scan_append, scan_piece, Option.bind_some, ih]
    simp

/-- A key, up to the colon. -/
theorem scan_key (stack : List Frame) (ms : List (Text × Value)) (t : Text) :
    scan ⟨stack, .text (.key ms) [] .none⟩ (t.flatMap Piece.write ++ ['"']) =
      some ⟨stack, .colon ms t⟩ := by
  rw [scan_append, scan_pieces]
  simp [step, stepText]

theorem scan_text (stack : List Frame) (t : Text) :
    scan ⟨stack, .text .value [] .none⟩ (t.flatMap Piece.write ++ ['"']) =
      some (close stack (.str t)) := by
  rw [scan_append, scan_pieces]
  simp [step, stepText]

/-- What ends a number. -/
def Ends (c : Char) : Prop := c = ',' ∨ c = ']' ∨ c = '}' ∨ c = ' ' ∨ c = '\n'

theorem next_of_ends {c : Char} (h : Ends c) (st : Digits) : st.next c = none := by
  rcases h with rfl | rfl | rfl | rfl | rfl <;> cases st <;> rfl

theorem step_close (stack : List Frame) (v : Value) (c : Char) :
    step (close stack v) c =
      if isSpace c then some (close stack v)
      else stepNext (close stack v).stack c (close stack v).mode := by
  cases stack with
  | nil => simp [close, step, stepNext]
  | cons f stack => cases f <;> rfl

theorem scan_digits {stack : List Frame} {st st' : Digits} {before cs : List Char}
    (h : cs.foldlM Digits.next st = some st') :
    scan ⟨stack, .number st before⟩ cs = some ⟨stack, .number st' (cs.reverse ++ before)⟩ := by
  induction cs generalizing st before with
  | nil =>
    obtain rfl : st = st' := Option.some.inj h
    rfl
  | cons c cs ih =>
    rw [List.foldlM_cons] at h
    obtain ⟨mid, hmid, hrest⟩ := Option.bind_eq_some_iff.mp h
    simp [step, hmid, ih hrest]

theorem number_start (n : Number) : ∃ c cs st st', n.val = c :: cs ∧ Digits.start.next c = some st ∧
    cs.foldlM Digits.next st = some st' := by
  obtain ⟨cs, hcs⟩ := n
  cases cs with
  | nil => cases hcs
  | cons c cs =>
    unfold isNumber at hcs
    split at hcs
    · rename_i st' hst
      rw [List.foldlM_cons] at hst
      obtain ⟨st, hfirst, hrest⟩ := Option.bind_eq_some_iff.mp hst
      exact ⟨c, cs, st, st', rfl, hfirst, hrest⟩
    · cases hcs

theorem number_head {c : Char} {st : Digits} (h : Digits.start.next c = some st) :
    c = '-' ∨ c.isDigit = true := by
  simp only [Digits.next, Digits.next.first] at h
  by_cases hminus : c = '-'
  · exact Or.inl hminus
  · by_cases hzero : c = '0'
    · subst hzero
      exact Or.inr rfl
    · by_cases hd : c.isDigit = true
      · exact Or.inr hd
      · simp [hminus, hzero, hd] at h

theorem beginValue_number {c : Char} {st : Digits} (h : Digits.start.next c = some st)
    (stack : List Frame) : beginValue stack c = some ⟨stack, .number st [c]⟩ := by
  have hne : c ≠ '"' ∧ c ≠ '[' ∧ c ≠ '{' ∧ c ≠ 't' ∧ c ≠ 'f' ∧ c ≠ 'n' := by
    rcases number_head h with rfl | hd
    · decide
    · refine ⟨?_, ?_, ?_, ?_, ?_, ?_⟩ <;> (rintro rfl; cases hd)
  simp [beginValue, hne, h]

/-- The first character that is written of a value. -/
theorem write_head (v : Value) : ∃ c cs, v.write = c :: cs ∧ isSpace c = false ∧ c ≠ ']' := by
  cases v with
  | null => exact ⟨'n', _, rfl, rfl, by decide⟩
  | bool b => cases b <;> exact ⟨_, _, rfl, rfl, by decide⟩
  | num n =>
    obtain ⟨c, cs, st, st', hn, hfirst, -⟩ := number_start n
    refine ⟨c, cs, hn, ?_, ?_⟩
    · rcases number_head hfirst with rfl | hd
      · rfl
      · have hne : c ≠ ' ' ∧ c ≠ '\t' ∧ c ≠ '\r' ∧ c ≠ '\n' := by
          refine ⟨?_, ?_, ?_, ?_⟩ <;> (rintro rfl; cases hd)
        simp [isSpace, hne]
    · rcases number_head hfirst with rfl | hd
      · decide
      · rintro rfl
        cases hd
  | str s => exact ⟨'"', _, rfl, rfl, by decide⟩
  | arr xs => cases xs <;> exact ⟨'[', _, rfl, rfl, by decide⟩
  | obj ms => cases ms <;> exact ⟨'{', _, rfl, rfl, by decide⟩

theorem scan_first (stack : List Frame) (v : Value) (rest : List Char) :
    scan ⟨stack, .first⟩ (v.write ++ rest) = scan ⟨stack, .value⟩ (v.write ++ rest) := by
  obtain ⟨c, cs, hw, hspace, hclose⟩ := write_head v
  simp [hw, step, hspace, hclose]

theorem writeElems_head (xs : List Value) : ∃ c cs, writeElems xs = c :: cs ∧ Ends c := by
  cases xs with
  | nil => exact ⟨']', [], rfl, Or.inr (Or.inl rfl)⟩
  | cons x xs => exact ⟨',', _, rfl, Or.inl rfl⟩

theorem writeMembers_head (ms : List (Text × Value)) :
    ∃ c cs, writeMembers ms = c :: cs ∧ Ends c := by
  cases ms with
  | nil => exact ⟨'}', [], rfl, Or.inr (Or.inr (Or.inl rfl))⟩
  | cons m ms => exact ⟨',', _, rfl, Or.inl rfl⟩

theorem step_number_end {stack : List Frame} {st : Digits} {before : List Char} {n : Number}
    {c : Char} (hc : Ends c) (hn : number? before = some n) :
    step ⟨stack, .number st before⟩ c = step (close stack (.num n)) c := by
  rw [step_close]
  simp [step, next_of_ends hc, hn]

theorem scan_number (stack : List Frame) (n : Number) {c : Char} (hc : Ends c)
    (rest : List Char) :
    scan ⟨stack, .value⟩ (n.val ++ c :: rest) = scan (close stack (.num n)) (c :: rest) := by
  obtain ⟨d, ds, st, st', hn, hfirst, hrest⟩ := number_start n
  obtain ⟨d', ds', hw, hspace, -⟩ := write_head (.num n)
  obtain ⟨rfl, rfl⟩ : d = d' ∧ ds = ds' := by
    rw [Value.write, hn] at hw
    exact List.cons.inj hw
  have hnum : number? (ds.reverse ++ [d]) = some n := by
    have hback : (ds.reverse ++ [d]).reverse = n.val := by simp [hn]
    simp only [number?, hback]
    rw [dif_pos n.property]
  have hbegin : step ⟨stack, .value⟩ d = some ⟨stack, .number st [d]⟩ := by
    simp [step, hspace, beginValue_number hfirst]
  rw [hn, List.cons_append, scan_cons, scan_cons, hbegin, Option.bind_some]
  rw [scan_append, scan_digits hrest, Option.bind_some, scan_cons, step_number_end hc hnum]

/-- Only a number needs what follows it to end. -/
def Ended (v : Value) (rest : List Char) : Prop :=
  ∀ n, v = .num n → ∃ c cs, rest = c :: cs ∧ Ends c

theorem ended_cons (v : Value) {c : Char} (hc : Ends c) (rest : List Char) :
    Ended v (c :: rest) :=
  fun _ _ => ⟨c, rest, rfl, hc⟩

mutual

theorem scan_write (v : Value) (stack : List Frame) {rest : List Char} (hc : Ended v rest)
    (hd : v.depth + stack.length ≤ maxNestingDepth) :
    scan ⟨stack, .value⟩ (v.write ++ rest) = scan (close stack v) rest := by
  match v with
  | .null => simp [Value.write, step, isSpace, beginValue]
  | .bool true => simp [Value.write, step, isSpace, beginValue]
  | .bool false => simp [Value.write, step, isSpace, beginValue]
  | .num n =>
    obtain ⟨c, cs, rfl, hends⟩ := hc n rfl
    exact scan_number stack n hends cs
  | .str s =>
    have hbegin : step ⟨stack, .value⟩ '"' = some ⟨stack, .text .value [] .none⟩ := rfl
    rw [Value.write, Text.write, List.cons_append, scan_cons, hbegin, Option.bind_some, scan_append,
      scan_text, Option.bind_some]
  | .arr [] =>
    have hroom : stack.length < maxNestingDepth := by
      simp only [Value.depth] at hd
      omega
    simp [Value.write, step, isSpace, beginValue, hroom]
  | .arr (x :: xs) =>
    have hroom : stack.length < maxNestingDepth := by
      simp only [Value.depth] at hd
      omega
    have hx : x.depth + (Frame.elem [] :: stack).length ≤ maxNestingDepth := by
      have hmax : x.depth ≤ depthAll (x :: xs) := Nat.le_max_left _ _
      simp only [Value.depth] at hd
      simp only [List.length_cons]
      omega
    have hxs : depthAll xs + (stack.length + 1) ≤ maxNestingDepth := by
      have hmax : depthAll xs ≤ depthAll (x :: xs) := Nat.le_max_right _ _
      simp only [Value.depth] at hd
      omega
    have hbegin : step ⟨stack, .value⟩ '[' = some ⟨.elem [] :: stack, .first⟩ := by
      simp [step, isSpace, beginValue, hroom]
    obtain ⟨e, es, hes, he⟩ := writeElems_head xs
    have hrest := scan_writeElems xs stack [x] rest hxs
    rw [hes, List.cons_append] at hrest
    rw [Value.write, List.cons_append, scan_cons, hbegin, Option.bind_some, List.append_assoc,
      scan_first, hes, List.cons_append, scan_write x _ (ended_cons x he _) hx]
    exact hrest
  | .obj [] =>
    have hroom : stack.length < maxNestingDepth := by
      simp only [Value.depth] at hd
      omega
    simp [Value.write, step, isSpace, beginValue, hroom]
  | .obj ((k, x) :: ms) =>
    have hroom : stack.length < maxNestingDepth := by
      simp only [Value.depth] at hd
      omega
    have hx : x.depth + (Frame.field [] k :: stack).length ≤ maxNestingDepth := by
      have hmax : x.depth ≤ depthMembers ((k, x) :: ms) := Nat.le_max_left _ _
      simp only [Value.depth] at hd
      simp only [List.length_cons]
      omega
    have hms : depthMembers ms + (stack.length + 1) ≤ maxNestingDepth := by
      have hmax : depthMembers ms ≤ depthMembers ((k, x) :: ms) := Nat.le_max_right _ _
      simp only [Value.depth] at hd
      omega
    have hbegin : step ⟨stack, .value⟩ '{' = some ⟨stack, .firstKey⟩ := by
      simp [step, isSpace, beginValue, hroom]
    have hquote : step ⟨stack, .firstKey⟩ '"' = some ⟨stack, .text (.key []) [] .none⟩ := rfl
    have hcolon : step ⟨stack, .colon [] k⟩ ':' = some ⟨.field [] k :: stack, .value⟩ := rfl
    obtain ⟨e, es, hes, he⟩ := writeMembers_head ms
    have hrest := scan_writeMembers ms stack [(k, x)] rest hms
    rw [hes, List.cons_append] at hrest
    rw [Value.write, Text.write, List.cons_append, scan_cons, hbegin, Option.bind_some,
      List.cons_append, List.cons_append, scan_cons, hquote, Option.bind_some, List.append_assoc,
      scan_append, scan_key, Option.bind_some, List.cons_append, scan_cons, hcolon,
      Option.bind_some, List.append_assoc, hes, List.cons_append, scan_write x _ (ended_cons x he _) hx]
    exact hrest

theorem scan_writeElems (xs : List Value) (stack : List Frame) (before : List Value)
    (rest : List Char) (hd : depthAll xs + (stack.length + 1) ≤ maxNestingDepth) :
    scan ⟨stack, .nextElem before⟩ (writeElems xs ++ rest) =
      scan (close stack (.arr (before.reverse ++ xs))) rest := by
  match xs with
  | [] =>
    have hclose : step ⟨stack, .nextElem before⟩ ']' = some (close stack (.arr before.reverse)) := rfl
    rw [writeElems, List.cons_append, scan_cons, hclose, Option.bind_some, List.append_nil]
    rfl
  | x :: xs =>
    have hx : x.depth + (Frame.elem before :: stack).length ≤ maxNestingDepth := by
      have hmax : x.depth ≤ depthAll (x :: xs) := Nat.le_max_left _ _
      simp only [List.length_cons]
      omega
    have hxs : depthAll xs + (stack.length + 1) ≤ maxNestingDepth := by
      have hmax : depthAll xs ≤ depthAll (x :: xs) := Nat.le_max_right _ _
      omega
    have hcomma : step ⟨stack, .nextElem before⟩ ',' = some ⟨.elem before :: stack, .value⟩ := rfl
    obtain ⟨e, es, hes, he⟩ := writeElems_head xs
    have hrest := scan_writeElems xs stack (x :: before) rest hxs
    rw [hes, List.cons_append] at hrest
    rw [writeElems, List.cons_append, scan_cons, hcomma, Option.bind_some, List.append_assoc, hes,
      List.cons_append, scan_write x _ (ended_cons x he _) hx]
    rw [List.reverse_cons, List.append_assoc] at hrest
    exact hrest

theorem scan_writeMembers (ms : List (Text × Value)) (stack : List Frame)
    (before : List (Text × Value)) (rest : List Char)
    (hd : depthMembers ms + (stack.length + 1) ≤ maxNestingDepth) :
    scan ⟨stack, .nextField before⟩ (writeMembers ms ++ rest) =
      scan (close stack (.obj (before.reverse ++ ms))) rest := by
  match ms with
  | [] =>
    have hclose : step ⟨stack, .nextField before⟩ '}' = some (close stack (.obj before.reverse)) := rfl
    rw [writeMembers, List.cons_append, scan_cons, hclose, Option.bind_some, List.append_nil]
    rfl
  | (k, x) :: ms =>
    have hx : x.depth + (Frame.field before k :: stack).length ≤ maxNestingDepth := by
      have hmax : x.depth ≤ depthMembers ((k, x) :: ms) := Nat.le_max_left _ _
      simp only [List.length_cons]
      omega
    have hms : depthMembers ms + (stack.length + 1) ≤ maxNestingDepth := by
      have hmax : depthMembers ms ≤ depthMembers ((k, x) :: ms) := Nat.le_max_right _ _
      omega
    have hcomma : step ⟨stack, .nextField before⟩ ',' = some ⟨stack, .key before⟩ := rfl
    have hquote : step ⟨stack, .key before⟩ '"' = some ⟨stack, .text (.key before) [] .none⟩ := rfl
    have hcolon : step ⟨stack, .colon before k⟩ ':' = some ⟨.field before k :: stack, .value⟩ := rfl
    obtain ⟨e, es, hes, he⟩ := writeMembers_head ms
    have hrest := scan_writeMembers ms stack ((k, x) :: before) rest hms
    rw [hes, List.cons_append] at hrest
    rw [writeMembers, List.cons_append, scan_cons, hcomma, Option.bind_some, Text.write,
      List.cons_append, List.cons_append, scan_cons, hquote, Option.bind_some, List.append_assoc,
      scan_append, scan_key, Option.bind_some, List.cons_append, scan_cons, hcolon,
      Option.bind_some, List.append_assoc, hes, List.cons_append, scan_write x _ (ended_cons x he _) hx]
    rw [List.reverse_cons, List.append_assoc] at hrest
    exact hrest

end

/-- What is written of a value is read as that value. -/
theorem read_write {v : Value} (hd : v.depth ≤ maxNestingDepth) : read v.write = some v := by
  by_cases hnum : ∃ n, v = .num n
  · obtain ⟨n, rfl⟩ := hnum
    obtain ⟨c, cs, st, st', hn, hfirst, hrest⟩ := number_start n
    obtain ⟨c', cs', hw, hspace, -⟩ := write_head (.num n)
    obtain ⟨rfl, rfl⟩ : c = c' ∧ cs = cs' := by
      rw [Value.write, hn] at hw
      exact List.cons.inj hw
    have hbegin : step Scan.start c = some ⟨[], .number st [c]⟩ := by
      simp [Scan.start, step, hspace, beginValue_number hfirst]
    have hback : (cs.reverse ++ [c]).reverse = n.val := by simp [hn]
    rw [read, Value.write, hn, scan_cons, hbegin, Option.bind_some, scan_digits hrest,
      Option.bind_some, Scan.finish, number?]
    simp only [hback]
    rw [dif_pos n.property]
    rfl
  · have hended : Ended v [] := fun n hn => (hnum ⟨n, hn⟩).elim
    have hscan := scan_write v [] hended (by simpa using hd)
    rw [List.append_nil] at hscan
    rw [read, Scan.start, hscan]
    rfl

end Json
