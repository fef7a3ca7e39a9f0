import Scimage.Lib.Json
import Scimage.Store.Admin

/-! The SCIM resources: how `encoding/json` reads and writes them. -/
namespace Scimage.Scim

open Store (Time)
open Json (Value Text quote)

/-- `unicode.ToLower`; `asciiLower` is what it does where ASCII comes out. -/
structure Unicode where
  toLower : Char → Char
  ascii : ∀ c, (toLower c).toNat < 128 ∨ (Store.asciiLower c).toNat < 128 →
    toLower c = Store.asciiLower c

/-- `strings.ToLower`. -/
def Unicode.lower (U : Unicode) (s : String) : String := String.ofList (s.toList.map U.toLower)

theorem toLower_ascii (U : Unicode) {c : Char} (h : Store.asciiLower c = c) (hc : c.toNat < 128) :
    U.toLower c = c := by
  rw [U.ascii c (Or.inr (by rwa [h])), h]

/-- Only ASCII letters have two cases here. -/
def Unicode.plain : Unicode := ⟨Store.asciiLower, fun _ _ => rfl⟩

/-- `time.Time` in JSON: the text it is written as, and the literals it is read from. -/
structure TimeText where
  format : Time → String
  parse : Text → Option Time

/-! ### Reading into a value that is there already

A member that occurs twice is read over what the first one left. -/

/-- A slice, and what its array still holds behind its end. -/
structure Slice (α : Type) where
  items : List α
  spare : List α

def Slice.nil : Slice α := ⟨[], []⟩

def Slice.of (items : List α) : Slice α := ⟨items, []⟩

@[simp] theorem Slice.nil_items : (Slice.nil : Slice α).items = [] := rfl

@[simp] theorem Slice.of_items (items : List α) : (Slice.of items).items = items := rfl

def readElems (elem : α → Value → Option α) (zero : α) : List α → List Value → Option (List α)
  | _, [] => some []
  | old, x :: xs => do
    let a ← elem (old.headD zero) x
    let as ← readElems elem zero old.tail xs
    return a :: as

def readSlice (elem : α → Value → Option α) (zero : α) (s : Slice α) : Value → Option (Slice α)
  | .null => some .nil
  | .arr [] => some .nil
  | .arr xs =>
    (readElems elem zero (s.items ++ s.spare) xs).map fun items =>
      ⟨items, (s.items ++ s.spare).drop xs.length⟩
  | _ => none

def readString (old : String) : Value → Option String
  | .null => some old
  | .str t => some t.string
  | _ => none

/-- `foldName`, against a name in ASCII: two characters outside ASCII fold into it. -/
def foldRune (c : Char) : Char :=
  if c.toNat = 0x17F then 's' else if c.toNat = 0x212A then 'k' else c.toLower

def names (field key : String) : Bool := key.toList.map foldRune == field.toList.map foldRune

def readStruct (set : α → String → Value → Option α) (old : α) : Value → Option α
  | .null => some old
  | .obj ms => ms.foldlM (fun a m => set a m.1.string m.2) old
  | _ => none

def readPtr (read : α → Value → Option α) (zero : α) (old : Option α) : Value → Option (Option α)
  | .null => some none
  | v => (read (old.getD zero) v).map some

/-! What holds of every part that is read holds of what is read. -/

theorem readStruct_keeps {set : α → String → Value → Option α} {P : α → Prop} {ms : List (Text × Value)}
    (hset : ∀ m ∈ ms, ∀ a b, P a → set a m.1.string m.2 = some b → P b) {old a : α} (hold : P old)
    (h : ms.foldlM (fun a m => set a m.1.string m.2) old = some a) : P a := by
  induction ms generalizing old with
  | nil =>
    cases h
    exact hold
  | cons m ms ih =>
    rw [List.foldlM_cons] at h
    obtain ⟨b, hb, hrest⟩ := Option.bind_eq_some_iff.mp h
    exact ih (fun m' hm' => hset m' (List.mem_cons_of_mem m hm')) (hset m List.mem_cons_self _ _ hold hb)
      hrest

theorem readElems_keeps {elem : α → Value → Option α} {zero : α} {P : α → Prop} {xs : List Value}
    (helem : ∀ x ∈ xs, ∀ a b, P a → elem a x = some b → P b) (hzero : P zero) {old items : List α}
    (hold : ∀ a ∈ old, P a) (h : readElems elem zero old xs = some items) : ∀ a ∈ items, P a := by
  induction xs generalizing old items with
  | nil =>
    cases h
    simp
  | cons x xs ih =>
    rw [readElems] at h
    obtain ⟨b, hb, h⟩ := Option.bind_eq_some_iff.mp h
    obtain ⟨bs, hbs, h⟩ := Option.bind_eq_some_iff.mp h
    cases h
    have hhead : P (old.headD zero) := by
      cases old with
      | nil => exact hzero
      | cons a old => exact hold a List.mem_cons_self
    intro a ha
    rcases List.mem_cons.mp ha with rfl | ha
    · exact helem x List.mem_cons_self _ _ hhead hb
    · exact ih (fun y hy => helem y (List.mem_cons_of_mem x hy))
        (fun c hc => hold c (List.mem_of_mem_tail hc)) hbs a ha

def Slice.All (P : α → Prop) (s : Slice α) : Prop := ∀ a ∈ s.items ++ s.spare, P a

theorem readSlice_keeps {elem : α → Value → Option α} {zero : α} {P : α → Prop} {v : Value}
    (helem : ∀ xs, v = .arr xs → ∀ x ∈ xs, ∀ a b, P a → elem a x = some b → P b) (hzero : P zero)
    {old s : Slice α} (hold : old.All P) (h : readSlice elem zero old v = some s) : s.All P := by
  have hnil : Slice.All P (.nil : Slice α) := by simp [Slice.All, Slice.nil]
  unfold readSlice at h
  split at h
  · cases h
    exact hnil
  · cases h
    exact hnil
  · rename_i xs _
    obtain ⟨items, hitems, rfl⟩ := Option.map_eq_some_iff.mp h
    have hread := readElems_keeps (helem xs rfl) hzero hold hitems
    intro a ha
    rcases List.mem_append.mp ha with ha | ha
    · exact hread a ha
    · exact hold a (List.mem_of_mem_drop ha)
  · cases h

/-! ### Booleans -/

/-- The characters between the quotes, when none of them is escaped. -/
def literal : Text → Option (List Char)
  | [] => some []
  | .plain c :: t => (literal t).map (c.val :: ·)
  | .short _ :: _ | .unit _ :: _ => none

/-- `Bool.UnmarshalJSON` reads the text of the value. -/
def readBool (U : Unicode) : Value → Option Bool
  | .null => some false
  | .bool b => some b
  | .str t =>
    match (literal t).map fun cs => U.lower (String.ofList cs) with
    | some "true" => some true
    | some "false" | some "null" | some "" => some false
    | _ => none
  | .num _ | .arr _ | .obj _ => none

/-! ### Users -/

structure Name where
  givenName : String
  familyName : String
  deriving DecidableEq

structure Email where
  value : String
  primary : Bool
  deriving DecidableEq

structure Meta where
  resourceType : String
  created : Time
  lastModified : Time
  location : String

structure User where
  schemas : Slice String
  id : String
  externalID : String
  userName : String
  name : Option Name
  emails : Slice Email
  active : Option Bool
  info : Option Meta

def Name.zero : Name := ⟨"", ""⟩

def Email.zero : Email := ⟨"", false⟩

def Meta.zero : Meta := ⟨"", 0, 0, ""⟩

def User.zero : User := ⟨.nil, "", "", "", none, .nil, none, none⟩

def Name.set (n : Name) (key : String) (v : Value) : Option Name :=
  if names "givenName" key then (readString n.givenName v).map fun s => { n with givenName := s }
  else if names "familyName" key then
    (readString n.familyName v).map fun s => { n with familyName := s }
  else some n

def readName : Name → Value → Option Name := readStruct Name.set

def Email.set (U : Unicode) (e : Email) (key : String) (v : Value) : Option Email :=
  if names "value" key then (readString e.value v).map fun s => { e with value := s }
  else if names "primary" key then (readBool U v).map fun b => { e with primary := b }
  else some e

def readEmail (U : Unicode) : Email → Value → Option Email := readStruct (Email.set U)

def readTime (T : TimeText) (old : Time) : Value → Option Time
  | .null => some old
  | .str t => T.parse t
  | _ => none

def Meta.set (T : TimeText) (m : Meta) (key : String) (v : Value) : Option Meta :=
  if names "resourceType" key then
    (readString m.resourceType v).map fun s => { m with resourceType := s }
  else if names "created" key then (readTime T m.created v).map fun t => { m with created := t }
  else if names "lastModified" key then
    (readTime T m.lastModified v).map fun t => { m with lastModified := t }
  else if names "location" key then (readString m.location v).map fun s => { m with location := s }
  else some m

def readMeta (T : TimeText) : Meta → Value → Option Meta := readStruct (Meta.set T)

def User.set (U : Unicode) (T : TimeText) (u : User) (key : String) (v : Value) : Option User :=
  if names "schemas" key then
    (readSlice readString "" u.schemas v).map fun s => { u with schemas := s }
  else if names "id" key then (readString u.id v).map fun s => { u with id := s }
  else if names "externalId" key then
    (readString u.externalID v).map fun s => { u with externalID := s }
  else if names "userName" key then (readString u.userName v).map fun s => { u with userName := s }
  else if names "name" key then
    (readPtr readName Name.zero u.name v).map fun n => { u with name := n }
  else if names "emails" key then
    (readSlice (readEmail U) Email.zero u.emails v).map fun s => { u with emails := s }
  else if names "active" key then
    (readPtr (fun _ v => readBool U v) false u.active v).map fun b => { u with active := b }
  else if names "meta" key then
    (readPtr (readMeta T) Meta.zero u.info v).map fun m => { u with info := m }
  else some u

def readUser (U : Unicode) (T : TimeText) : Value → Option User :=
  readStruct (User.set U T) User.zero

/-! ### Groups -/

structure Member where
  value : String
  ref : String
  display : String
  deriving DecidableEq

structure Group where
  schemas : Slice String
  id : String
  externalID : String
  displayName : String
  members : Slice Member
  info : Option Meta

def Member.zero : Member := ⟨"", "", ""⟩

def Member.of (value : String) : Member := ⟨value, "", ""⟩

@[simp] theorem Member.of_value (value : String) : (Member.of value).value = value := rfl

def Group.zero : Group := ⟨.nil, "", "", "", .nil, none⟩

def Member.set (m : Member) (key : String) (v : Value) : Option Member :=
  if names "value" key then (readString m.value v).map fun s => { m with value := s }
  else if names "$ref" key then (readString m.ref v).map fun s => { m with ref := s }
  else if names "display" key then (readString m.display v).map fun s => { m with display := s }
  else some m

def readMember : Member → Value → Option Member := readStruct Member.set

def Group.set (T : TimeText) (g : Group) (key : String) (v : Value) : Option Group :=
  if names "schemas" key then
    (readSlice readString "" g.schemas v).map fun s => { g with schemas := s }
  else if names "id" key then (readString g.id v).map fun s => { g with id := s }
  else if names "externalId" key then
    (readString g.externalID v).map fun s => { g with externalID := s }
  else if names "displayName" key then
    (readString g.displayName v).map fun s => { g with displayName := s }
  else if names "members" key then
    (readSlice readMember Member.zero g.members v).map fun s => { g with members := s }
  else if names "meta" key then
    (readPtr (readMeta T) Meta.zero g.info v).map fun m => { g with info := m }
  else some g

def readGroup (T : TimeText) : Value → Option Group := readStruct (Group.set T) Group.zero

/-! ### Respelling

What is read of a value does not depend on how its strings are spelt. -/

def Respells (read : α → Value → Option α) : Prop := ∀ old v, read old v.escape = read old v

theorem readString_escape : Respells readString := by
  intro old v
  cases v <;> simp [readString, Value.escape]

theorem foldlM_escape {set : α → String → Value → Option α}
    (hset : ∀ a key v, set a key v.escape = set a key v) (old : α) (ms : List (Text × Value)) :
    (Json.escapeMembers ms).foldlM (fun a m => set a m.1.string m.2) old =
      ms.foldlM (fun a m => set a m.1.string m.2) old := by
  induction ms generalizing old with
  | nil => rfl
  | cons m ms ih =>
    rw [Json.escapeMembers, List.foldlM_cons, List.foldlM_cons, Json.string_escape, hset]
    congr 1
    funext a
    exact ih a

theorem readStruct_escape {set : α → String → Value → Option α}
    (hset : ∀ a key v, set a key v.escape = set a key v) : Respells (readStruct set) := by
  intro old v
  cases v with
  | obj ms => exact foldlM_escape hset old ms
  | _ => rfl

theorem readElems_escape {elem : α → Value → Option α} {z : α} (h : Respells elem)
    (old : List α) (xs : List Value) :
    readElems elem z old (Json.escapeAll xs) = readElems elem z old xs := by
  induction xs generalizing old with
  | nil => rfl
  | cons x xs ih => rw [Json.escapeAll, readElems, readElems, h, ih]

theorem length_escapeAll (xs : List Value) : (Json.escapeAll xs).length = xs.length := by
  induction xs with
  | nil => rfl
  | cons x xs ih => rw [Json.escapeAll, List.length_cons, List.length_cons, ih]

theorem readSlice_escape {elem : α → Value → Option α} {z : α} (h : Respells elem) :
    Respells (readSlice elem z) := by
  intro old v
  cases v with
  | arr xs =>
    cases xs with
    | nil => rfl
    | cons x xs =>
      have helems := readElems_escape (z := z) h (old.items ++ old.spare) (x :: xs)
      have hlen := length_escapeAll (x :: xs)
      rw [Json.escapeAll] at helems hlen
      simp only [Value.escape, Json.escapeAll, readSlice, helems, hlen]
  | _ => rfl

theorem literal_escape (t : Text) :
    literal t.escape = (literal t).filter fun cs => !cs.any Json.isMarkup := by
  induction t with
  | nil => rfl
  | cons p t ih =>
    cases p with
    | short e => rfl
    | unit n => rfl
    | plain c =>
      by_cases hm : Json.isMarkup c.val = true
      · have hcons : literal (Text.escape (.plain c :: t)) = none := by
          simp [Text.escape, Json.Piece.escape, hm, Json.Piece.unitOf, literal]
        rw [hcons, literal]
        cases literal t <;> simp [Option.filter, hm]
      · have hcons : literal (Text.escape (.plain c :: t)) =
            (literal (Text.escape t)).map (c.val :: ·) := by
          simp [Text.escape, Json.Piece.escape, hm, literal]
        rw [hcons, ih, literal]
        cases literal t with
        | none => rfl
        | some cs => cases hcs : cs.any Json.isMarkup <;> simp [Option.filter, hm, hcs]

/-- The texts that read as booleans. -/
def boolWords : List String := ["true", "false", "null", ""]

theorem asciiLower_markup {c : Char} (h : Json.isMarkup c = true) : Store.asciiLower c = c := by
  simp only [Json.isMarkup, Bool.or_eq_true, beq_iff_eq] at h
  rcases h with (((rfl | rfl) | rfl) | h) | h
  · decide
  · decide
  · decide
  · rw [← Char.ofNat_toNat c, h]
    decide
  · rw [← Char.ofNat_toNat c, h]
    decide

theorem lower_markup (U : Unicode) {cs : List Char} (h : cs.any Json.isMarkup = true) :
    U.lower (String.ofList cs) ∉ boolWords := by
  obtain ⟨c, hc, hm⟩ := List.any_eq_true.mp h
  have hmem : U.toLower c ∈ (U.lower (String.ofList cs)).toList := by
    rw [Unicode.lower, String.toList_ofList, String.toList_ofList]
    exact List.mem_map_of_mem hc
  have hlower : (boolWords.all fun w =>
      w.toList.all fun d => Nat.blt d.toNat 128 && !Json.isMarkup d) = true := by rfl
  intro hw
  have hd := List.all_eq_true.mp (List.all_eq_true.mp hlower _ hw) _ hmem
  rw [Bool.and_eq_true, Nat.blt_eq, Bool.not_eq_true'] at hd
  obtain ⟨hascii, hplain⟩ := hd
  rw [U.ascii c (Or.inl hascii), asciiLower_markup hm, hm] at hplain
  cases hplain

theorem readBool_escape (U : Unicode) (v : Value) : readBool U v.escape = readBool U v := by
  cases v with
  | str t =>
    rw [Value.escape, readBool, readBool, literal_escape]
    cases hl : literal t with
    | none => rfl
    | some cs =>
      cases hm : cs.any Json.isMarkup with
      | false => simp [Option.filter, hm]
      | true =>
        have hword := lower_markup U hm
        simp only [boolWords, List.mem_cons, List.not_mem_nil, or_false, not_or] at hword
        simp [Option.filter, hm, hword]
  | _ => rfl

theorem readName_escape : Respells readName := by
  apply readStruct_escape
  intro n key v
  simp only [Name.set, readString_escape n.givenName v, readString_escape n.familyName v]

theorem readEmail_escape (U : Unicode) : Respells (readEmail U) := by
  apply readStruct_escape
  intro e key v
  simp only [Email.set, readString_escape e.value v, readBool_escape]

/-! ### Writing -/

def string (s : String) : Value := .str (quote s)

def field (name : String) (v : Value) : List (Text × Value) := [(quote name, v)]

/-- `omitempty`. -/
def nonEmptyField (name value : String) : List (Text × Value) :=
  if value = "" then [] else field name (string value)

def Name.json (n : Name) : Value :=
  .obj (nonEmptyField "givenName" n.givenName ++ nonEmptyField "familyName" n.familyName)

def Email.json (e : Email) : Value :=
  .obj (field "value" (string e.value) ++ if e.primary then field "primary" (.bool true) else [])

def Meta.json (T : TimeText) (m : Meta) : Value :=
  .obj (field "resourceType" (string m.resourceType) ++
    field "created" (string (T.format m.created)) ++
    field "lastModified" (string (T.format m.lastModified)) ++
    field "location" (string m.location))

def optField (name : String) (json : α → Value) : Option α → List (Text × Value)
  | none => []
  | some a => field name (json a)

def itemsField (name : String) (json : α → Value) (s : Slice α) : List (Text × Value) :=
  if s.items.isEmpty then [] else field name (.arr (s.items.map json))

def User.members (T : TimeText) (u : User) : List (Text × Value) :=
  field "schemas" (.arr (u.schemas.items.map string)) ++
    nonEmptyField "id" u.id ++
    nonEmptyField "externalId" u.externalID ++
    field "userName" (string u.userName) ++
    optField "name" Name.json u.name ++
    itemsField "emails" Email.json u.emails ++
    optField "active" .bool u.active ++
    optField "meta" (Meta.json T) u.info

def Member.json (m : Member) : Value :=
  .obj (field "value" (string m.value) ++ nonEmptyField "$ref" m.ref ++
    nonEmptyField "display" m.display)

def Group.jsonMembers (T : TimeText) (g : Group) : List (Text × Value) :=
  field "schemas" (.arr (g.schemas.items.map string)) ++
    nonEmptyField "id" g.id ++
    nonEmptyField "externalId" g.externalID ++
    field "displayName" (string g.displayName) ++
    itemsField "members" Member.json g.members ++
    optField "meta" (Meta.json T) g.info

end Scimage.Scim
