import Mathlib.Data.List.TakeWhile
import Mathlib.Tactic.Common

/-! Base64 text, written with the standard alphabet and padding and read leniently. -/
namespace Base64

/-- The character of a six-bit digit. -/
def digitChar (n : ℕ) : Char :=
  if n < 26 then Char.ofNat (65 + n)
  else if n < 52 then Char.ofNat (71 + n)
  else if n < 62 then Char.ofNat (n - 4)
  else if n = 62 then '+'
  else '/'

/-- The digit of a character of the standard or of the URL-safe alphabet. -/
def charDigit (c : Char) : Option ℕ :=
  if 'A' ≤ c ∧ c ≤ 'Z' then some (c.toNat - 65)
  else if 'a' ≤ c ∧ c ≤ 'z' then some (c.toNat - 71)
  else if '0' ≤ c ∧ c ≤ '9' then some (c.toNat + 4)
  else if c = '+' ∨ c = '-' then some 62
  else if c = '/' ∨ c = '_' then some 63
  else none

theorem charDigit_digitChar {n : ℕ} (hn : n < 64) : charDigit (digitChar n) = some n := by
  have hall : ∀ k : Fin 64, charDigit (digitChar k) = some k.val := by decide
  exact hall ⟨n, hn⟩

theorem digitChar_ne_pad {n : ℕ} (hn : n < 64) : digitChar n ≠ '=' := by
  intro heq
  have hdigit := charDigit_digitChar hn
  rw [heq] at hdigit
  cases hdigit

/-- The digits of a byte string, six bits each, without padding. -/
def digits : List UInt8 → List ℕ
  | a :: b :: c :: rest =>
    [a.toNat / 4, a.toNat % 4 * 16 + b.toNat / 16, b.toNat % 16 * 4 + c.toNat / 64,
      c.toNat % 64] ++ digits rest
  | [a, b] => [a.toNat / 4, a.toNat % 4 * 16 + b.toNat / 16, b.toNat % 16 * 4]
  | [a] => [a.toNat / 4, a.toNat % 4 * 16]
  | [] => []

/-- The bytes of some digits; bits that do not fill a byte are dropped. -/
def bytes : List ℕ → List UInt8
  | a :: b :: c :: d :: rest =>
    [.ofNat (a * 4 + b / 16), .ofNat (b % 16 * 16 + c / 4), .ofNat (c % 4 * 64 + d)] ++ bytes rest
  | [a, b, c] => [.ofNat (a * 4 + b / 16), .ofNat (b % 16 * 16 + c / 4)]
  | [a, b] => [.ofNat (a * 4 + b / 16)]
  | [_] => []
  | [] => []

def padding (length : ℕ) : List Char :=
  if length % 3 = 1 then ['=', '='] else if length % 3 = 2 then ['='] else []

def encode (bs : List UInt8) : List Char := (digits bs).map digitChar ++ padding bs.length

/-- The low bytes of a character's UTF-16 units, which is all that is looked at of it. -/
def lowBytes (c : Char) : List Char :=
  if c.toNat < 256 then [c]
  else if c.toNat < 0x10000 then [.ofNat (c.toNat % 256)]
  else
    let n := c.toNat - 0x10000
    [.ofNat (n / 0x400 % 256), .ofNat (n % 256)]

/-- Reads up to the first padding character and skips what belongs to neither alphabet. -/
def decode (text : List Char) : List UInt8 :=
  bytes (((text.flatMap lowBytes).takeWhile (· ≠ '=')).filterMap charDigit)

theorem lowBytes_of_lt {c : Char} (hc : c.toNat < 256) : lowBytes c = [c] := if_pos hc

theorem flatMap_lowBytes {text : List Char} (hall : ∀ c ∈ text, c.toNat < 256) :
    text.flatMap lowBytes = text := by
  induction text with
  | nil => rfl
  | cons c text ih =>
    have hrest : text.flatMap lowBytes = text := ih fun d hd => hall d (List.mem_cons_of_mem c hd)
    rw [List.flatMap_cons, lowBytes_of_lt (hall c List.mem_cons_self), hrest, List.singleton_append]

theorem digitChar_lt {n : ℕ} (hn : n < 64) : (digitChar n).toNat < 256 := by
  have hall : ∀ k : Fin 64, (digitChar k).toNat < 256 := by decide
  exact hall ⟨n, hn⟩

theorem digits_lt (bs : List UInt8) : ∀ n ∈ digits bs, n < 64 := by
  induction bs using digits.induct with
  | case1 a b c rest ih =>
    have ha := a.toNat_lt
    have hb := b.toNat_lt
    have hc := c.toNat_lt
    intro n hn
    simp only [digits, List.mem_append, List.mem_cons, List.not_mem_nil, or_false] at hn
    rcases hn with (rfl | rfl | rfl | rfl) | hn
    · omega
    · omega
    · omega
    · omega
    · exact ih n hn
  | case2 a b =>
    have ha := a.toNat_lt
    have hb := b.toNat_lt
    intro n hn
    simp only [digits, List.mem_cons, List.not_mem_nil, or_false] at hn
    omega
  | case3 a =>
    have ha := a.toNat_lt
    intro n hn
    simp only [digits, List.mem_cons, List.not_mem_nil, or_false] at hn
    omega
  | case4 =>
    intro n hn
    cases hn

/-- A byte is put together from any number that equals it. -/
theorem ofNat_of_eq {a : UInt8} {n : ℕ} (hn : n = a.toNat) : UInt8.ofNat n = a := by
  rw [hn, UInt8.ofNat_toNat]

theorem bytes_digits (bs : List UInt8) : bytes (digits bs) = bs := by
  induction bs using digits.induct with
  | case1 a b c rest ih =>
    have ha := a.toNat_lt
    have hb := b.toNat_lt
    have hc := c.toNat_lt
    simp only [digits, List.cons_append, List.nil_append, bytes, ih]
    congr 1
    · exact ofNat_of_eq (by omega)
    · congr 1
      · exact ofNat_of_eq (by omega)
      · congr 1
        exact ofNat_of_eq (by omega)
  | case2 a b =>
    have ha := a.toNat_lt
    have hb := b.toNat_lt
    simp only [digits, bytes]
    congr 1
    · exact ofNat_of_eq (by omega)
    · congr 1
      exact ofNat_of_eq (by omega)
  | case3 a =>
    have ha := a.toNat_lt
    simp only [digits, bytes]
    congr 1
    exact ofNat_of_eq (by omega)
  | case4 => rfl

theorem encode_lt (bs : List UInt8) : ∀ c ∈ encode bs, c.toNat < 256 := by
  intro c hc
  rcases List.mem_append.mp hc with hc | hc
  · obtain ⟨n, hn, rfl⟩ := List.mem_map.mp hc
    exact digitChar_lt (digits_lt bs n hn)
  · have hpad : c = '=' := by
      unfold padding at hc
      split at hc
      · simpa using hc
      · split at hc
        · simpa using hc
        · cases hc
    rw [hpad]
    decide

theorem takeWhile_encode (bs : List UInt8) :
    (encode bs).takeWhile (· ≠ '=') = (digits bs).map digitChar := by
  have hdigits : ∀ c ∈ (digits bs).map digitChar, decide (c ≠ '=') = true := by
    intro c hc
    obtain ⟨n, hn, rfl⟩ := List.mem_map.mp hc
    simpa using digitChar_ne_pad (digits_lt bs n hn)
  have hpad : (padding bs.length).takeWhile (· ≠ '=') = [] := by
    unfold padding
    split
    · rfl
    · split <;> rfl
  rw [encode, List.takeWhile_append_of_pos hdigits, hpad, List.append_nil]

theorem filterMap_charDigit {ns : List ℕ} (hns : ∀ n ∈ ns, n < 64) :
    (ns.map digitChar).filterMap charDigit = ns := by
  induction ns with
  | nil => rfl
  | cons n ns ih =>
    rw [List.map_cons, List.filterMap_cons_some (charDigit_digitChar (hns n (by simp))),
      ih (fun m hm => hns m (by simp [hm]))]

/-- What was written is read back. -/
@[simp] theorem decode_encode (bs : List UInt8) : decode (encode bs) = bs := by
  rw [decode, flatMap_lowBytes (encode_lt bs), takeWhile_encode,
    filterMap_charDigit (digits_lt bs), bytes_digits]

end Base64
