import Invisibool.Text.Str

/-!
# JSON values

Values, the nesting of their arrays and objects, and their text without blanks. Numbers are a
parameter; two values that are the same up to their numbers have the same outline.
-/

open Text

inductive Json (Num : Type)
  | null
  | bool (b : Bool)
  | number (n : Num)
  | string (s : Str)
  | array (items : List (Json Num))
  | object (members : List (Str × Json Num))

namespace Json

variable {Num : Type}

mutual

/-- How deep arrays and objects are nested. -/
def depth : Json Num → Nat
  | array items => depthItems items + 1
  | object members => depthMembers members + 1
  | null | bool _ | number _ | string _ => 0

def depthItems : List (Json Num) → Nat
  | [] => 0
  | v :: vs => max (depth v) (depthItems vs)

def depthMembers : List (Str × Json Num) → Nat
  | [] => 0
  | (_, v) :: members => max (depth v) (depthMembers members)

end

mutual

/-- The value without its numbers. -/
def outline : Json Num → Json Unit
  | null => null
  | bool b => bool b
  | number _ => number ()
  | string s => string s
  | array items => array (outlineItems items)
  | object members => object (outlineMembers members)

def outlineItems : List (Json Num) → List (Json Unit)
  | [] => []
  | v :: vs => outline v :: outlineItems vs

def outlineMembers : List (Str × Json Num) → List (Str × Json Unit)
  | [] => []
  | (key, v) :: members => (key, outline v) :: outlineMembers members

end

def get (v : Json Num) (key : Str) : Option (Json Num) :=
  match v with
  | object members => members.lookup key
  | _ => none

def asBool : Json Num → Option Bool
  | bool b => some b
  | _ => none

def asStr : Json Num → Option Str
  | string s => some s
  | _ => none

def hexDigit (n : Nat) : Char := "0123456789abcdef".toList.getD n '0'

/-- A character inside the quotes of a string. -/
def escapeChar (c : Char) : Str :=
  if c = '"' then "\\\"".toList
  else if c = '\\' then "\\\\".toList
  else if c.toNat = 8 then "\\b".toList
  else if c.toNat = 9 then "\\t".toList
  else if c.toNat = 10 then "\\n".toList
  else if c.toNat = 12 then "\\f".toList
  else if c.toNat = 13 then "\\r".toList
  else if c.toNat < 32 then "\\u00".toList ++ [hexDigit (c.toNat / 16), hexDigit (c.toNat % 16)]
  else [c]

def escape (s : Str) : Str := s.flatMap escapeChar

def quoted (s : Str) : Str := '"' :: escape s ++ ['"']

section Compact

variable (num : Num → Str)

mutual

/-- The text without blanks. -/
def compact : Json Num → Str
  | null => "null".toList
  | bool true => "true".toList
  | bool false => "false".toList
  | number n => num n
  | string s => quoted s
  | array items => '[' :: compactItems items ++ [']']
  | object members => '\x7b' :: compactMembers members ++ ['\x7d']

def compactItems : List (Json Num) → Str
  | [] => []
  | [v] => compact v
  | v :: vs => compact v ++ ',' :: compactItems vs

def compactMembers : List (Str × Json Num) → Str
  | [] => []
  | [(key, v)] => quoted key ++ ':' :: compact v
  | (key, v) :: members => quoted key ++ ':' :: compact v ++ ',' :: compactMembers members

end

end Compact

@[simp] lemma escape_nil : escape [] = [] := rfl

@[simp] lemma escape_append (s t : Str) : escape (s ++ t) = escape s ++ escape t := by
  simp [escape]

lemma utf8Size_hexDigit (n : Nat) : (hexDigit n).utf8Size = 1 := by
  have hdigits : ∀ n < 16, (hexDigit n).utf8Size = 1 := by decide
  by_cases hn : n < 16
  · exact hdigits n hn
  · rw [hexDigit, List.getD_eq_getElem?_getD, List.getElem?_eq_none (Nat.le_of_not_lt hn)]
    rfl

lemma byteLen_escapeChar_le (c : Char) : byteLen (escapeChar c) ≤ 6 * c.utf8Size := by
  have hsix : 6 ≤ 6 * c.utf8Size := Nat.le_mul_of_pos_right 6 c.utf8Size_pos
  unfold escapeChar
  repeat' split
  all_goals first
    | exact le_trans (by decide) hsix
    | skip
  · rw [byteLen_append, byteLen_cons, byteLen_cons, utf8Size_hexDigit, utf8Size_hexDigit]
    exact le_trans (by decide) hsix
  · rw [byteLen_cons]
    exact Nat.le_mul_of_pos_left _ (by omega)

/-- Escaping makes a text at most six times as long. -/
lemma byteLen_escape_le (s : Str) : byteLen (escape s) ≤ 6 * byteLen s := by
  induction s with
  | nil => rfl
  | cons c s ih =>
    have hc := byteLen_escapeChar_le c
    simp only [escape, List.flatMap_cons, byteLen_append, byteLen_cons] at ih ⊢
    omega

lemma eq_string_of_outline {v : Json Num} {s : Str} (h : v.outline = string s) : v = string s := by
  cases v with
  | string t =>
    cases h
    rfl
  | _ => cases h

lemma eq_bool_of_outline {v : Json Num} {b : Bool} (h : v.outline = bool b) : v = bool b := by
  cases v with
  | bool b' =>
    cases h
    rfl
  | _ => cases h

lemma eq_object_of_outline {v : Json Num} {members : List (Str × Json Unit)}
    (h : v.outline = object members) :
    ∃ members', v = object members' ∧ outlineMembers members' = members := by
  cases v with
  | object members' =>
    cases h
    exact ⟨members', rfl, rfl⟩
  | _ => cases h

lemma eq_cons_of_outlineMembers {key : Str} {v : Json Unit} {members : List (Str × Json Num)}
    {rest : List (Str × Json Unit)} (h : outlineMembers members = (key, v) :: rest) :
    ∃ v' rest', members = (key, v') :: rest' ∧ v'.outline = v ∧ outlineMembers rest' = rest := by
  cases members with
  | nil => cases h
  | cons m members =>
    cases h
    exact ⟨m.2, members, rfl, rfl, rfl⟩

lemma eq_nil_of_outlineMembers {members : List (Str × Json Num)}
    (h : outlineMembers members = []) : members = [] := by
  cases members with
  | nil => rfl
  | cons m members => cases h

end Json
