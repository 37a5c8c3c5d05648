import MutualKeyChallenge.Wire.Json
import MutualKeyChallenge.Wire.Utf8

/-! JSON as text: what `JSON.stringify` writes and `JSON.parse` reads. -/
namespace MutualKeyChallenge

/-! Strings are sequences of UTF-16 code units. -/
namespace Utf16

def ofChar (c : Char) : List ℕ :=
  if c.toNat < 0x10000 then [c.toNat]
  else [0xD800 + (c.toNat - 0x10000) / 0x400, 0xDC00 + (c.toNat - 0x10000) % 0x400]

def isHigh (u : ℕ) : Bool := 0xD800 ≤ u ∧ u < 0xDC00

def isLow (u : ℕ) : Bool := 0xDC00 ≤ u ∧ u < 0xE000

/-- A surrogate without its other half is read as U+FFFD. -/
def lone (u : ℕ) : Char := if isHigh u || isLow u then Utf8.replacement else Char.ofNat u

def toText : List ℕ → List Char
  | [] => []
  | [u] => [lone u]
  | u :: v :: rest =>
    if isHigh u && isLow v then
      Char.ofNat (0x10000 + (u - 0xD800) * 0x400 + (v - 0xDC00)) :: toText rest
    else lone u :: toText (v :: rest)

theorem toText_ofChar (c : Char) (rest : List ℕ) :
    toText (ofChar c ++ rest) = c :: toText rest := by
  have hvalid := Utf8.toNat_lt_or c
  unfold ofChar
  split
  · rename_i hsmall
    have hhigh : isHigh c.toNat = false := by simp [isHigh]; omega
    have hlow : isLow c.toNat = false := by simp [isLow]; omega
    have hlone : lone c.toNat = c := by simp [lone, hhigh, hlow, Char.ofNat_toNat]
    cases rest with
    | nil => simp [toText, hlone]
    | cons v rest => simp [toText, hhigh, hlone]
  · rename_i hlarge
    have hhigh : isHigh (0xD800 + (c.toNat - 0x10000) / 0x400) = true := by simp [isHigh]; omega
    have hlow : isLow (0xDC00 + (c.toNat - 0x10000) % 0x400) = true := by simp [isLow]; omega
    have hn : 0x10000 + (0xD800 + (c.toNat - 0x10000) / 0x400 - 0xD800) * 0x400 +
        (0xDC00 + (c.toNat - 0x10000) % 0x400 - 0xDC00) = c.toNat := by omega
    simp only [List.cons_append, List.nil_append, toText, hhigh, hlow, Bool.and_self, if_true, hn,
      Char.ofNat_toNat]

theorem toText_flatMap (text : List Char) : toText (text.flatMap ofChar) = text := by
  induction text with
  | nil => rfl
  | cons c text ih => rw [List.flatMap_cons, toText_ofChar, ih]

end Utf16

/-! Reading, character by character. -/
namespace JsonText

/-- How far a number has been read. -/
inductive Numeral
  | minus
  | zero
  | digits
  | point
  | fraction
  | exponent
  | exponentSign
  | exponentDigits
  deriving DecidableEq, Repr

namespace Numeral

def start (c : Char) : Option Numeral :=
  if c = '-' then some .minus
  else if c = '0' then some .zero
  else if c.isDigit then some .digits
  else none

/-- A fraction or an exponent begins. -/
def widen (c : Char) : Option Numeral :=
  if c = '.' then some .point else if c = 'e' ∨ c = 'E' then some .exponent else none

def next : Numeral → Char → Option Numeral
  | .minus, c => if c = '0' then some .zero else if c.isDigit then some .digits else none
  | .zero, c => widen c
  | .digits, c => if c.isDigit then some .digits else widen c
  | .point, c => if c.isDigit then some .fraction else none
  | .fraction, c =>
    if c.isDigit then some .fraction else if c = 'e' ∨ c = 'E' then some .exponent else none
  | .exponent, c =>
    if c.isDigit then some .exponentDigits
    else if c = '+' ∨ c = '-' then some .exponentSign
    else none
  | .exponentSign, c => if c.isDigit then some .exponentDigits else none
  | .exponentDigits, c => if c.isDigit then some .exponentDigits else none

def complete : Numeral → Bool
  | .zero | .digits | .fraction | .exponentDigits => true
  | _ => false

end Numeral

/-- An array or object that has begun, with what it holds so far. -/
inductive Frame
  | array (elements : List Json)
  | object (fields : List (String × Json)) (key : String)

/-- What a string is read for. -/
inductive Use
  | value
  | key (fields : List (String × Json))

/-- Where the reader stands; `stack` holds what has begun, from the inside out. -/
inductive State
  | value (stack : List Frame)
  | firstElement (stack : List Frame)
  | firstKey (stack : List Frame)
  | key (fields : List (String × Json)) (stack : List Frame)
  | colon (fields : List (String × Json)) (key : String) (stack : List Frame)
  | string (use : Use) (units : List ℕ) (stack : List Frame)
  | escape (use : Use) (units : List ℕ) (stack : List Frame)
  | hex (use : Use) (units : List ℕ) (missing code : ℕ) (stack : List Frame)
  | word (rest : List Char) (value : Json) (stack : List Frame)
  | number (numeral : Numeral) (text : List Char) (stack : List Frame)
  | after (value : Json) (stack : List Frame)

def blank (c : Char) : Bool := c = ' ' ∨ c = '\t' ∨ c = '\n' ∨ c = '\r'

/-- A later field of the same name takes the earlier one's place. -/
def setField (fields : List (String × Json)) (key : String) (value : Json) :
    List (String × Json) :=
  if fields.any (·.1 = key) then
    fields.map fun field => if field.1 = key then (key, value) else field
  else fields ++ [(key, value)]

def hexDigit (c : Char) : Option ℕ :=
  if '0' ≤ c ∧ c ≤ '9' then some (c.toNat - 48)
  else if 'a' ≤ c ∧ c ≤ 'f' then some (c.toNat - 87)
  else if 'A' ≤ c ∧ c ≤ 'F' then some (c.toNat - 55)
  else none

/-- The code unit that an escape of one letter stands for. -/
def shortEscape (c : Char) : Option ℕ :=
  if c = '"' ∨ c = '\\' ∨ c = '/' then some c.toNat
  else if c = 'b' then some 8
  else if c = 'f' then some 12
  else if c = 'n' then some 10
  else if c = 'r' then some 13
  else if c = 't' then some 9
  else none

/-- A string has been read. -/
def ofString (units : List ℕ) (stack : List Frame) : Use → State
  | .value => .after (.string (Utf16.toText units)) stack
  | .key fields => .colon fields (String.ofList (Utf16.toText units)) stack

def startValue (c : Char) (stack : List Frame) : Option State :=
  if c = '"' then some (.string .value [] stack)
  else if c = '{' then some (.firstKey stack)
  else if c = '[' then some (.firstElement stack)
  else if c = 't' then some (.word ['r', 'u', 'e'] (.bool true) stack)
  else if c = 'f' then some (.word ['a', 'l', 's', 'e'] (.bool false) stack)
  else if c = 'n' then some (.word ['u', 'l', 'l'] .null stack)
  else (Numeral.start c).map (.number · [c] stack)

/-- What may follow a value. -/
def follow (c : Char) (value : Json) (stack : List Frame) : Option State :=
  if blank c then some (.after value stack)
  else
    match stack with
    | [] => none
    | .array elements :: stack =>
      if c = ',' then some (.value (.array (elements ++ [value]) :: stack))
      else if c = ']' then some (.after (.array (elements ++ [value])) stack)
      else none
    | .object fields key :: stack =>
      if c = ',' then some (.key (setField fields key value) stack)
      else if c = '}' then some (.after (.object (setField fields key value)) stack)
      else none

/-- `toDouble` gives the double nearest to a numeral. -/
def step (toDouble : List Char → UInt64) (c : Char) : State → Option State
  | .value stack => if blank c then some (.value stack) else startValue c stack
  | .firstElement stack =>
    if blank c then some (.firstElement stack)
    else if c = ']' then some (.after (.array []) stack)
    else startValue c (.array [] :: stack)
  | .firstKey stack =>
    if blank c then some (.firstKey stack)
    else if c = '}' then some (.after (.object []) stack)
    else if c = '"' then some (.string (.key []) [] stack)
    else none
  | .key fields stack =>
    if blank c then some (.key fields stack)
    else if c = '"' then some (.string (.key fields) [] stack)
    else none
  | .colon fields key stack =>
    if blank c then some (.colon fields key stack)
    else if c = ':' then some (.value (.object fields key :: stack))
    else none
  | .string use units stack =>
    if c = '"' then some (ofString units stack use)
    else if c = '\\' then some (.escape use units stack)
    else if c.toNat < 0x20 then none
    else some (.string use (units ++ Utf16.ofChar c) stack)
  | .escape use units stack =>
    if c = 'u' then some (.hex use units 4 0 stack)
    else (shortEscape c).map fun u => .string use (units ++ [u]) stack
  | .hex use units missing code stack =>
    (hexDigit c).map fun digit =>
      if missing = 1 then .string use (units ++ [code * 16 + digit]) stack
      else .hex use units (missing - 1) (code * 16 + digit) stack
  | .word rest value stack =>
    match rest with
    | [] => none
    | [last] => if c = last then some (.after value stack) else none
    | d :: rest => if c = d then some (.word rest value stack) else none
  | .number numeral text stack =>
    match numeral.next c with
    | some numeral => some (.number numeral (text ++ [c]) stack)
    | none => if numeral.complete then follow c (.number (toDouble text)) stack else none
  | .after value stack => follow c value stack

def run (toDouble : List Char → UInt64) : State → List Char → Option State
  | state, [] => some state
  | state, c :: text =>
    match step toDouble c state with
    | none => none
    | some state => run toDouble state text

/-- The value when the text ends here. -/
def finish (toDouble : List Char → UInt64) : State → Option Json
  | .after value [] => some value
  | .number numeral text [] => if numeral.complete then some (.number (toDouble text)) else none
  | _ => none

/-- `JSON.parse(text)` -/
def parse (toDouble : List Char → UInt64) (text : List Char) : Except Thrown Json :=
  match (run toDouble (.value []) text).bind (finish toDouble) with
  | none => .error .syntaxError
  | some value => .ok value

/-! Writing. -/

def toHexDigit (n : ℕ) : Char := Char.ofNat (if n < 10 then 48 + n else 87 + n)

def quoteChar (c : Char) : List Char :=
  if c = '"' then ['\\', '"']
  else if c = '\\' then ['\\', '\\']
  else if c.toNat = 8 then ['\\', 'b']
  else if c.toNat = 12 then ['\\', 'f']
  else if c.toNat = 10 then ['\\', 'n']
  else if c.toNat = 13 then ['\\', 'r']
  else if c.toNat = 9 then ['\\', 't']
  else if c.toNat < 0x20 then
    ['\\', 'u', '0', '0', toHexDigit (c.toNat / 16), toHexDigit (c.toNat % 16)]
  else [c]

def quote (text : List Char) : List Char := '"' :: text.flatMap quoteChar ++ ['"']

mutual

/-- `JSON.stringify(value)`; `ofDouble` gives the shortest numeral of a double, or `null`. -/
def stringify (ofDouble : UInt64 → List Char) : Json → List Char
  | .null => ['n', 'u', 'l', 'l']
  | .bool true => ['t', 'r', 'u', 'e']
  | .bool false => ['f', 'a', 'l', 's', 'e']
  | .number bits => ofDouble bits
  | .string text => quote text
  | .array elements => '[' :: stringifyElements ofDouble elements ++ [']']
  | .object fields => '{' :: stringifyFields ofDouble fields ++ ['}']

def stringifyElements (ofDouble : UInt64 → List Char) : List Json → List Char
  | [] => []
  | [element] => stringify ofDouble element
  | element :: rest => stringify ofDouble element ++ ',' :: stringifyElements ofDouble rest

def stringifyFields (ofDouble : UInt64 → List Char) : List (String × Json) → List Char
  | [] => []
  | [field] => stringifyField ofDouble field
  | field :: rest => stringifyField ofDouble field ++ ',' :: stringifyFields ofDouble rest

def stringifyField (ofDouble : UInt64 → List Char) : String × Json → List Char
  | (key, value) => quote key.toList ++ ':' :: stringify ofDouble value

end


/-! What is written is read back. -/

section Reading
variable {toDouble : List Char → UInt64} {ofDouble : UInt64 → List Char} {stack : List Frame}
  {use : Use} {units : List ℕ} {fields : List (String × Json)} {key : String} {value : Json}
  {c : Char} {rest : List Char}

theorem hexDigit_toHexDigit {n : ℕ} (hn : n < 16) : hexDigit (toHexDigit n) = some n := by
  revert n
  decide

theorem char_eq {n : ℕ} (h : c.toNat = n) : c = Char.ofNat n := by
  rw [← h, Char.ofNat_toNat]

/-- A control character comes back from its four digits. -/
theorem run_control (hc : c.toNat < 0x20) :
    run toDouble (.string use units stack)
        (['\\', 'u', '0', '0', toHexDigit (c.toNat / 16), toHexDigit (c.toNat % 16)] ++ rest) =
      run toDouble (.string use (units ++ [c.toNat]) stack) rest := by
  have hhigh : hexDigit (toHexDigit (c.toNat / 16)) = some (c.toNat / 16) :=
    hexDigit_toHexDigit (by omega)
  have hlow : hexDigit (toHexDigit (c.toNat % 16)) = some (c.toNat % 16) :=
    hexDigit_toHexDigit (by omega)
  have hzero : hexDigit '0' = some 0 := by decide
  have hn : c.toNat / 16 * 16 + c.toNat % 16 = c.toNat := by omega
  simp [run, step, hhigh, hlow, hzero, hn]

/-- A character comes back from what it is written as. -/
theorem run_quoteChar :
    run toDouble (.string use units stack) (quoteChar c ++ rest) =
      run toDouble (.string use (units ++ Utf16.ofChar c) stack) rest := by
  have hsmall : c.toNat < 0x20 → Utf16.ofChar c = [c.toNat] := by
    intro hc
    exact if_pos (by omega)
  simp only [quoteChar]
  split
  · subst c
    rfl
  split
  · subst c
    rfl
  split
  · rename_i h
    rw [char_eq h]
    rfl
  split
  · rename_i h
    rw [char_eq h]
    rfl
  split
  · rename_i h
    rw [char_eq h]
    rfl
  split
  · rename_i h
    rw [char_eq h]
    rfl
  split
  · rename_i h
    rw [char_eq h]
    rfl
  split
  · rename_i h
    rw [run_control h, hsmall h]
  · rename_i hquote hslash _ _ _ _ _ hcontrol
    simp [run, step, hquote, hslash, hcontrol]

theorem run_text (text : List Char) :
    run toDouble (.string use units stack) (text.flatMap quoteChar ++ rest) =
      run toDouble (.string use (units ++ text.flatMap Utf16.ofChar) stack) rest := by
  induction text generalizing units with
  | nil => simp
  | cons c text ih =>
    rw [List.flatMap_cons, List.append_assoc, run_quoteChar, ih, List.flatMap_cons,
      List.append_assoc]

/-- A text comes back from between its quotes. -/
theorem run_quoted (text : List Char) :
    run toDouble (.string use [] stack) (text.flatMap quoteChar ++ '"' :: rest) =
      run toDouble (ofString (text.flatMap Utf16.ofChar) stack use) rest := by
  rw [run_text, List.nil_append]
  rfl

/-- Where a value is expected, what `stringify` writes is read as the value. -/
def Reads (toDouble : List Char → UInt64) (ofDouble : UInt64 → List Char) (value : Json) : Prop :=
  ∀ stack rest, run toDouble (.value stack) (stringify ofDouble value ++ rest) =
    run toDouble (.after value stack) rest

theorem reads_string (text : List Char) : Reads toDouble ofDouble (.string text) := by
  intro stack rest
  have htext : stringify ofDouble (.string text) ++ rest =
      '"' :: (text.flatMap quoteChar ++ '"' :: rest) := by
    simp [stringify, quote]
  have hquote : step toDouble '"' (.value stack) = some (.string .value [] stack) := rfl
  rw [htext, run, hquote]
  simp only [run_quoted, ofString, Utf16.toText_flatMap]

theorem setField_new (hkey : key ∉ fields.map Prod.fst) :
    setField fields key value = fields ++ [(key, value)] := by
  have hany : fields.any (·.1 = key) = false := by
    simp only [List.any_eq_false, decide_eq_true_eq]
    intro field hfield heq
    exact hkey (heq ▸ List.mem_map_of_mem hfield)
  simp only [setField, hany, Bool.false_eq_true, if_false]

theorem new_key {more : List (String × Json)}
    (hkeys : ((fields ++ (key, value) :: more).map Prod.fst).Nodup) :
    key ∉ fields.map Prod.fst := by
  simp only [List.map_append, List.nodup_append] at hkeys
  intro hmem
  exact hkeys.2.2 key hmem key (by simp) rfl

/-- A field, up to what follows its value. -/
theorem run_field (hvalue : Reads toDouble ofDouble value) :
    run toDouble (.key fields stack)
        (quote key.toList ++ ':' :: (stringify ofDouble value ++ rest)) =
      run toDouble (.after value (.object fields key :: stack)) rest := by
  have htext : quote key.toList ++ ':' :: (stringify ofDouble value ++ rest) =
      '"' :: (key.toList.flatMap quoteChar ++
        '"' :: ':' :: (stringify ofDouble value ++ rest)) := by
    simp [quote]
  have hquote : step toDouble '"' (.key fields stack) = some (.string (.key fields) [] stack) := rfl
  have hcolon : step toDouble ':' (.colon fields key stack) =
      some (.value (.object fields key :: stack)) := rfl
  rw [htext, run, hquote]
  simp only [run_quoted, ofString, Utf16.toText_flatMap, String.ofList_toList]
  rw [run, hcolon]
  exact hvalue _ _

/-- The fields that are left, after those that have been read. -/
theorem run_fields {field : String × Json} {more : List (String × Json)}
    (hvalues : ∀ f ∈ field :: more, Reads toDouble ofDouble f.2)
    (hkeys : ((fields ++ field :: more).map Prod.fst).Nodup) :
    run toDouble (.key fields stack) (stringifyFields ofDouble (field :: more) ++ '}' :: rest) =
      run toDouble (.after (.object (fields ++ field :: more)) stack) rest := by
  induction more generalizing field fields with
  | nil =>
    obtain ⟨key, value⟩ := field
    have hvalue : Reads toDouble ofDouble value := hvalues (key, value) List.mem_cons_self
    have hnew := new_key hkeys
    have hclose : step toDouble '}' (.after value (.object fields key :: stack)) =
        some (.after (.object (setField fields key value)) stack) := rfl
    simp only [stringifyFields, stringifyField, List.append_assoc, List.cons_append]
    rw [run_field hvalue, run, hclose, setField_new hnew]
  | cons next more ih =>
    obtain ⟨key, value⟩ := field
    have hvalue : Reads toDouble ofDouble value := hvalues (key, value) List.mem_cons_self
    have hnew := new_key hkeys
    have hcomma : step toDouble ',' (.after value (.object fields key :: stack)) =
        some (.key (setField fields key value) stack) := rfl
    simp only [stringifyFields, stringifyField, List.append_assoc, List.cons_append]
    rw [run_field hvalue, run, hcomma, setField_new hnew]
    have hkeys' : ((fields ++ [(key, value)] ++ next :: more).map Prod.fst).Nodup := by
      simpa using hkeys
    have hrest : ∀ f ∈ next :: more, Reads toDouble ofDouble f.2 := by
      intro f hf
      exact hvalues f (List.mem_cons_of_mem _ hf)
    simpa using ih hrest hkeys'

/-- An object without a repeated name comes back when its values do. -/
theorem reads_object (hvalues : ∀ f ∈ fields, Reads toDouble ofDouble f.2)
    (hkeys : (fields.map Prod.fst).Nodup) : Reads toDouble ofDouble (.object fields) := by
  intro stack rest
  have hopen : step toDouble '{' (.value stack) = some (.firstKey stack) := rfl
  have htext : stringify ofDouble (.object fields) ++ rest =
      '{' :: (stringifyFields ofDouble fields ++ '}' :: rest) := by
    simp [stringify]
  rw [htext, run, hopen]
  cases fields with
  | nil => rfl
  | cons field more =>
    have hfirst : ∀ text : List Char, run toDouble (.firstKey stack) ('"' :: text) =
        run toDouble (.key [] stack) ('"' :: text) := fun _ => rfl
    have hquote : ∃ text,
        stringifyFields ofDouble (field :: more) ++ '}' :: rest = '"' :: text := by
      obtain ⟨key, value⟩ := field
      cases more with
      | nil => exact ⟨_, rfl⟩
      | cons next more => exact ⟨_, rfl⟩
    obtain ⟨text, hquote⟩ := hquote
    simp only [hquote, hfirst]
    rw [← hquote, run_fields hvalues hkeys]
    rfl

/-- What `stringify` writes of such a value is parsed as the value. -/
theorem parse_stringify (hvalue : Reads toDouble ofDouble value) :
    parse toDouble (stringify ofDouble value) = .ok value := by
  have hrun := hvalue [] []
  rw [List.append_nil] at hrun
  simp only [parse, hrun, run, Option.bind_some, finish]

/-- No value begins with a capital. -/
theorem parse_capital (toDouble : List Char → UInt64) (c : Char) (text : List Char) (h1 : 'A' ≤ c)
    (h2 : c ≤ 'Z') : parse toDouble (c :: text) = .error .syntaxError := by
  have hother : ∀ d : Char, ¬ 'A' ≤ d ∨ ¬ d ≤ 'Z' → c ≠ d := by
    rintro d hd rfl
    exact hd.elim (absurd h1) (absurd h2)
  have hdigit : c.isDigit = false := by
    have h1 : 65 ≤ c.val.toNat := h1
    simp only [Char.isDigit, UInt32.le_iff_toNat_le, Bool.and_eq_false_iff, decide_eq_false_iff_not]
    right
    exact Nat.not_le.mpr (Nat.lt_of_lt_of_le (by decide) h1)
  have hblank : blank c = false := by
    simp [blank, hother ' ' (by decide), hother '\t' (by decide), hother '\n' (by decide),
      hother '\r' (by decide)]
  have hstart : Numeral.start c = none := by
    simp [Numeral.start, hother '-' (by decide), hother '0' (by decide), hdigit]
  have hstep : step toDouble c (.value []) = none := by
    simp [step, hblank, startValue, hstart, hother '"' (by decide), hother '\x7b' (by decide),
      hother '[' (by decide), hother 't' (by decide), hother 'f' (by decide),
      hother 'n' (by decide)]
  simp only [parse, run, hstep, Option.bind_none]

end Reading

/-- `JSON.parse` itself. -/
def parser (toDouble : List Char → UInt64) : JsonParser := ⟨parse toDouble, parse_capital toDouble⟩

end JsonText
end MutualKeyChallenge
