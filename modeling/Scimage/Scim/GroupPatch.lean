import Scimage.Scim.Patch

/-! PATCH on a group, whose members are genuinely many. -/
namespace Scimage.Scim

open Store (trimSpace trimSpace_eq_self)
open Json (Value Text Map Ranking readMap)

/-- `^members(\[[^\]]*\])?$` -/
def isMembersPath (key : String) : Bool :=
  match afterWord "members".toList key.toList with
  | some cs => skipFilter cs = []
  | none => false

/-! ### The member a path singles out -/

def afterFolded : List Char → List Char → Option (List Char)
  | [], cs => some cs
  | w :: ws, c :: cs => if w = foldRune c then afterFolded ws cs else none
  | _ :: _, [] => none

/-- `\s` -/
def isBlank (c : Char) : Bool := c == ' ' || c == '\t' || c == '\n' || c == '\r' || c.toNat == 12

/-- `"?([^"\]]*)"?\s*` up to the end. -/
def quotedValue (cs : List Char) : Option (List Char) :=
  let value := match cs with
    | '"' :: cs => cs
    | cs => cs
  match value.dropWhile (· ≠ '"') with
  | [] => some value
  | _ :: rest => if rest.all isBlank then some (value.takeWhile (· ≠ '"')) else none

/-- `\s+"?([^"\]]*)"?\s*\]$` -/
def filterValue (cs : List Char) : Option (List Char) :=
  match cs.reverse with
  | ']' :: middle =>
    if ']' ∈ middle then none
    else match middle.reverse with
      | c :: cs => if isBlank c then quotedValue (cs.dropWhile isBlank) else none
      | [] => none
  | _ => none

/-- `(?i)^members\[\s*value\s+eq\s+"?([^"\]]*)"?\s*\]$`, and what it captures. -/
def filteredMemberValue (path : String) : Option String := do
  let cs ← afterFolded "members[".toList path.toList
  let cs ← afterFolded "value".toList (cs.dropWhile isBlank)
  let cs ← match cs with
    | c :: cs => if isBlank c then some (cs.dropWhile isBlank) else none
    | [] => none
  let cs ← afterFolded "eq".toList cs
  let value ← filterValue cs
  return String.ofList value

/-- `members[value eq "id"]`. -/
def filterPath (id : String) : String := "members[value eq \"" ++ id ++ "\"]"

theorem toList_append_append (a b c : String) :
    (a ++ b ++ c).toList = a.toList ++ b.toList ++ c.toList := by
  rw [String.toList_append, String.toList_append]

theorem filterPath_chars (id : String) : (filterPath id).toList =
    'm' :: (['e', 'm', 'b', 'e', 'r', 's', '[', 'v', 'a', 'l', 'u', 'e', ' ', 'e', 'q', ' ', '"'] ++
      id.toList ++ ['"']) ++ [']'] := by
  have hstart : "members[value eq \"".toList = ['m', 'e', 'm', 'b', 'e', 'r', 's', '[', 'v', 'a', 'l',
    'u', 'e', ' ', 'e', 'q', ' ', '"'] := by rfl
  have hend : "\"]".toList = ['"', ']'] := by rfl
  refine (toList_append_append _ _ _).trans ?_
  rw [hstart, hend]
  simp only [List.cons_append, List.nil_append, List.append_assoc]

theorem trim_filterPath (id : String) : trimSpace (filterPath id) = filterPath id :=
  trimSpace_eq_self (filterPath_chars id) (by decide) (by decide)

theorem dropWhile_ne_append {c : Char} {cs t : List Char} (h : c ∉ cs) :
    (cs ++ c :: t).dropWhile (· ≠ c) = c :: t := by
  rw [List.dropWhile_append_of_pos]
  · rw [List.dropWhile_cons_of_neg (by simp)]
  · intro a ha
    simp only [decide_eq_true_eq]
    rintro rfl
    exact h ha

theorem takeWhile_ne_append {c : Char} {cs rest : List Char} (h : c ∉ cs) :
    (cs ++ c :: rest).takeWhile (· ≠ c) = cs := by
  rw [List.takeWhile_append_of_pos]
  · rw [List.takeWhile_cons_of_neg (by simp), List.append_nil]
  · intro a ha
    simp only [decide_eq_true_eq]
    rintro rfl
    exact h ha

theorem filterValue_quoted {cs : List Char} (hq : '"' ∉ cs) (hc : ']' ∉ cs) :
    filterValue (' ' :: '"' :: cs ++ ['"', ']']) = some cs := by
  have hrev : (' ' :: '"' :: cs ++ ['"', ']']).reverse = ']' :: '"' :: (cs.reverse ++ ['"', ' ']) := by
    simp
  have hmiddle : ']' ∉ '"' :: (cs.reverse ++ ['"', ' ']) := by
    simpa using hc
  have hback : ('"' :: (cs.reverse ++ ['"', ' '])).reverse = ' ' :: '"' :: (cs ++ ['"']) := by
    simp
  have hblank : isBlank ' ' = true := by decide
  have hmark : isBlank '"' = false := by decide
  simp only [filterValue, hrev, hmiddle, hback, hblank, if_true, if_false]
  rw [List.dropWhile_cons_of_neg (by simp [hmark])]
  simp only [quotedValue, dropWhile_ne_append hq, takeWhile_ne_append hq, List.all_nil, if_true]

theorem filterPath_value {id : String} (hq : '"' ∉ id.toList) (hc : ']' ∉ id.toList) :
    filteredMemberValue (filterPath id) = some id := by
  have hblank : isBlank ' ' = true := by decide
  have hv : isBlank 'v' = false := by decide
  have he : isBlank 'e' = false := by decide
  have hvalue := filterValue_quoted hq hc
  have h1 : "members[".toList = ['m', 'e', 'm', 'b', 'e', 'r', 's', '['] := by rfl
  have h2 : "value".toList = ['v', 'a', 'l', 'u', 'e'] := by rfl
  have h3 : "eq".toList = ['e', 'q'] := by rfl
  simp only [List.cons_append] at hvalue
  rw [filteredMemberValue, filterPath_chars, h1, h2, h3]
  simp [afterFolded, foldRune, hblank, hv, he, hvalue]

theorem skipFilter_closed {cs : List Char} (h : ']' ∉ cs) : skipFilter ('[' :: cs ++ [']']) = [] := by
  have hdrop := dropWhile_ne_append (t := []) h
  rw [List.cons_append, skipFilter, hdrop]

theorem asciiLower_bracket {c : Char} (h : Store.asciiLower c = ']') : c = ']' := by
  unfold Store.asciiLower at h
  by_cases h1 : c.toNat = 0x130
  · rw [if_pos h1] at h
    cases h
  · by_cases h2 : c.toNat = 0x212A
    · rw [if_neg h1, if_pos h2] at h
      cases h
    · rw [if_neg h1, if_neg h2] at h
      delta Char.toLower at h
      split at h
      · rename_i hup
        have hlo : 65 ≤ c.val.toNat := hup.1
        have hhi : c.val.toNat ≤ 90 := hup.2
        have hval : (c.val + 32).toNat = 93 := congrArg (fun d : Char => d.val.toNat) h
        rw [UInt32.toNat_add] at hval
        have h32 : (32 : UInt32).toNat = 32 := rfl
        omega
      · exact h

theorem toLower_bracket {U : Unicode} {c : Char} (h : U.toLower c = ']') : c = ']' := by
  have hascii : (U.toLower c).toNat < 128 := by
    rw [h]
    decide
  rw [U.ascii c (Or.inl hascii)] at h
  exact asciiLower_bracket h

theorem isMembersPath_filter {key : String} {inner : List Char}
    (hkey : key.toList = ['m', 'e', 'm', 'b', 'e', 'r', 's'] ++ ('[' :: inner ++ [']']))
    (h : ']' ∉ inner) : isMembersPath key = true := by
  have hword : "members".toList = ['m', 'e', 'm', 'b', 'e', 'r', 's'] := by rfl
  have hclosed := skipFilter_closed h
  rw [isMembersPath, hkey, hword]
  simp only [afterWord, List.cons_append, List.nil_append, if_true] at hclosed ⊢
  rw [hclosed]
  rfl

theorem filterPath_members {U : Unicode} {id : String} (h : ']' ∉ id.toList) :
    isMembersPath (U.lower (filterPath id)) = true := by
  have hkeep : ∀ c ∈ ['m', 'e', 'b', 'r', 's', '[', ']'], U.toLower c = c := by
    intro c hc
    have hall : (['m', 'e', 'b', 'r', 's', '[', ']'].all fun c =>
        Store.asciiLower c == c && Nat.blt c.toNat 128) = true := by rfl
    have hascii := List.all_eq_true.mp hall c hc
    rw [Bool.and_eq_true, beq_iff_eq, Nat.blt_eq] at hascii
    exact toLower_ascii U hascii.1 hascii.2
  have hinner : ']' ∉ (['v', 'a', 'l', 'u', 'e', ' ', 'e', 'q', ' ', '"'] ++ id.toList ++
      ['"']).map U.toLower := by
    intro hm
    obtain ⟨c, hc, he⟩ := List.mem_map.mp hm
    obtain rfl := toLower_bracket he
    simp only [List.cons_append, List.nil_append, List.mem_cons, List.mem_append, h] at hc
    revert hc
    decide
  refine isMembersPath_filter ?_ hinner
  rw [Unicode.lower, String.toList_ofList, filterPath_chars]
  simp [hkeep]

/-! ### Operations -/

/-- One object, an array of objects, or a bare string. -/
def decodeMemberValues (raw : Option Value) : Patched (List String) :=
  match (raw.bind (readMember .zero)).filter fun one => one.value ≠ "" with
  | some one => .ok [one.value]
  | none =>
    match (raw.bind (readSlice readMember .zero .nil)).filter fun many => many.items ≠ [] with
    | some many => .ok ((many.items.map Member.value).filter fun v => v ≠ "")
    | none =>
      match (raw.bind (readString "")).filter fun s => s ≠ "" with
      | some s => .ok [s]
      | none => .error .members

def toMembers (values : List String) : Slice Member := .of (values.map .of)

/-- Appends what is not there yet. -/
def addMembers (members : List Member) (values : List String) : List Member :=
  values.foldl (fun ms v => if v ∈ ms.map Member.value then ms else ms ++ [.of v]) members

def setMembers (g : Group) (raw : Option Value) (isAdd : Bool) : Patched Group := do
  let values ← decodeMemberValues raw
  if isAdd then return { g with members := .of (addMembers g.members.items values) }
  else return { g with members := toMembers values }

def setGroupPath (U : Unicode) (isAdd : Bool) (g : Group) (path : String) (raw : Option Value) :
    Patched Group :=
  let key := U.lower (trimSpace path)
  if key = "displayname" then do
    let v ← assignString raw path
    return { g with displayName := v }
  else if key = "externalid" then do
    let v ← assignString raw path
    return { g with externalID := v }
  else if isMembersPath key then setMembers g raw isAdd
  else .error (.unsupportedPath path)

def applyGroupValue (U : Unicode) (ω : Ranking) (isAdd : Bool) (g : Group) (op : Operation) :
    Patched Group :=
  if trimSpace op.path = "" then
    match op.value.bind readMap with
    | none => .error .notAnObject
    | some attrs => (attrs.range ω).foldlM (fun g e => setGroupPath U isAdd g e.1 (some e.2)) g
  else setGroupPath U isAdd g op.path op.value

def removeMember (members : List Member) (value : String) : List Member :=
  members.filter fun m => m.value ≠ value

def clearGroupPath (U : Unicode) (g : Group) (path : String) : Patched Group :=
  let key := U.lower (trimSpace path)
  if key = "" then .error .removeRequiresPath
  else if key = "externalid" then .ok { g with externalID := "" }
  else if key = "members" then .ok { g with members := .nil }
  else if isMembersPath key then
    match filteredMemberValue (trimSpace path) with
    | some value => .ok { g with members := .of (removeMember g.members.items value) }
    | none => .error (.unsupportedPath path)
  else .error (.unsupportedPath path)

def applyGroupOp (U : Unicode) (g : Group) (o : Operation × Ranking) : Patched Group :=
  if o.1.action U = "add" then applyGroupValue U o.2 true g o.1
  else if o.1.action U = "replace" then applyGroupValue U o.2 false g o.1
  else if o.1.action U = "remove" then clearGroupPath U g o.1.path
  else .error (.unsupportedOp o.1.op)

def applyGroupPatch (U : Unicode) (current : Group) (ops : List (Operation × Ranking)) :
    Patched Group :=
  if ops = [] then .error .operationsRequired
  else ops.foldlM (applyGroupOp U) current

end Scimage.Scim
