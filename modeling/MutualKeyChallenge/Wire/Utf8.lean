import Mathlib.Tactic.Common

/-! UTF-8 text, read leniently: what is no character becomes U+FFFD. -/
namespace Utf8

def replacement : Char := Char.ofNat 0xFFFD

/-- A character of which `needed` bytes are missing, the next of them between `lower` and
`upper`. -/
structure Started where
  codePoint : ℕ
  needed : ℕ
  lower : ℕ := 0x80
  upper : ℕ := 0xBF
  deriving DecidableEq, Repr

/-- What a byte in the first place gives, and the character it starts. -/
def start (b : UInt8) : List Char × Option Started :=
  let n := b.toNat
  if n < 0x80 then ([Char.ofNat n], none)
  else if n < 0xC2 then ([replacement], none)
  else if n < 0xE0 then ([], some { codePoint := n % 32, needed := 1 })
  else if n = 0xE0 then ([], some { codePoint := 0, needed := 2, lower := 0xA0 })
  else if n = 0xED then ([], some { codePoint := 13, needed := 2, upper := 0x9F })
  else if n < 0xF0 then ([], some { codePoint := n % 16, needed := 2 })
  else if n = 0xF0 then ([], some { codePoint := 0, needed := 3, lower := 0x90 })
  else if n < 0xF4 then ([], some { codePoint := n % 8, needed := 3 })
  else if n = 0xF4 then ([], some { codePoint := 4, needed := 3, upper := 0x8F })
  else ([replacement], none)

/-- A byte that does not continue the character stands in the first place of the next one. -/
def next (s : Option Started) (b : UInt8) : List Char × Option Started :=
  match s with
  | none => start b
  | some s =>
    if s.lower ≤ b.toNat ∧ b.toNat ≤ s.upper then
      let codePoint := s.codePoint * 64 + b.toNat % 64
      if s.needed = 1 then ([Char.ofNat codePoint], none)
      else ([], some { codePoint, needed := s.needed - 1 })
    else (replacement :: (start b).1, (start b).2)

def decodeFrom : Option Started → List UInt8 → List Char
  | none, [] => []
  | some _, [] => [replacement]
  | s, b :: rest => (next s b).1 ++ decodeFrom (next s b).2 rest

def decode (bytes : List UInt8) : List Char := decodeFrom none bytes

/-- ASCII reads as it is, whatever follows. -/
theorem decode_ascii {b : UInt8} (hb : b.toNat < 0x80) (rest : List UInt8) :
    decode (b :: rest) = Char.ofNat b.toNat :: decode rest := by
  have hnext : next none b = ([Char.ofNat b.toNat], none) := if_pos hb
  simp only [decode, decodeFrom, hnext, List.singleton_append]

-- two characters, a truncated one and a surrogate
example : decode [0xC3, 0xA4, 0xF0, 0x9F, 0x98, 0x80, 0xE2, 0x82, 0x41, 0xED, 0xA0] =
    ['ä', Char.ofNat 0x1F600, replacement, 'A', replacement, replacement] := by decide

/-! What is written is read back. -/

def encodeChar (c : Char) : List UInt8 :=
  let n := c.toNat
  if n < 0x80 then [.ofNat n]
  else if n < 0x800 then [.ofNat (0xC0 + n / 64), .ofNat (0x80 + n % 64)]
  else if n < 0x10000 then
    [.ofNat (0xE0 + n / 4096), .ofNat (0x80 + n / 64 % 64), .ofNat (0x80 + n % 64)]
  else
    [.ofNat (0xF0 + n / 262144), .ofNat (0x80 + n / 4096 % 64), .ofNat (0x80 + n / 64 % 64),
      .ofNat (0x80 + n % 64)]

def encode (text : List Char) : List UInt8 := text.flatMap encodeChar

/-- The last byte of a character. -/
theorem decodeFrom_last {s : Started} {b : UInt8} {rest : List UInt8} (hn : s.needed = 1)
    (h1 : s.lower ≤ b.toNat) (h2 : b.toNat ≤ s.upper) :
    decodeFrom (some s) (b :: rest) =
      Char.ofNat (s.codePoint * 64 + b.toNat % 64) :: decode rest := by
  simp [decodeFrom, next, h1, h2, hn, decode]

/-- A byte in the middle. -/
theorem decodeFrom_middle {s : Started} {b : UInt8} {rest : List UInt8} (hn : s.needed ≠ 1)
    (h1 : s.lower ≤ b.toNat) (h2 : b.toNat ≤ s.upper) :
    decodeFrom (some s) (b :: rest) =
      decodeFrom (some { codePoint := s.codePoint * 64 + b.toNat % 64, needed := s.needed - 1 })
        rest := by
  simp [decodeFrom, next, h1, h2, hn]

theorem decode_start {b : UInt8} {s : Started} {rest : List UInt8} (hs : start b = ([], some s)) :
    decode (b :: rest) = decodeFrom (some s) rest := by
  simp [decode, decodeFrom, next, hs]

theorem toNat_ofNat {n : ℕ} (hn : n < 256) : (UInt8.ofNat n).toNat = n := by
  rw [UInt8.toNat_ofNat', Nat.mod_eq_of_lt hn]

theorem toNat_continuation (k : ℕ) : (UInt8.ofNat (0x80 + k % 64)).toNat = 0x80 + k % 64 :=
  toNat_ofNat (by omega)

theorem continuation_ge (k : ℕ) : 0x80 ≤ (UInt8.ofNat (0x80 + k % 64)).toNat := by
  rw [toNat_continuation]
  omega

theorem continuation_le (k : ℕ) : (UInt8.ofNat (0x80 + k % 64)).toNat ≤ 0xBF := by
  rw [toNat_continuation]
  omega

theorem toNat_lt_or (c : Char) : c.toNat < 0xD800 ∨ 0xDFFF < c.toNat ∧ c.toNat < 0x110000 := c.valid

/-- The first of two bytes. -/
theorem start_two {n : ℕ} (h1 : 0x80 ≤ n) (h2 : n < 0x800) :
    start (.ofNat (0xC0 + n / 64)) = ([], some { codePoint := n / 64, needed := 1 }) := by
  have hb : (UInt8.ofNat (0xC0 + n / 64)).toNat = 0xC0 + n / 64 := toNat_ofNat (by omega)
  simp only [start, hb]
  rw [if_neg (by omega), if_neg (by omega), if_pos (by omega)]
  have hmod : (0xC0 + n / 64) % 32 = n / 64 := by omega
  rw [hmod]

/-- The first of three bytes; which second bytes it takes excludes short and surrogate forms. -/
theorem start_three {n : ℕ} (h1 : 0x800 ≤ n) (h2 : n < 0x10000) (hs : n < 0xD800 ∨ 0xDFFF < n) :
    ∃ lower upper, start (.ofNat (0xE0 + n / 4096)) =
        ([], some { codePoint := n / 4096, needed := 2, lower, upper }) ∧
      lower ≤ 0x80 + n / 64 % 64 ∧ 0x80 + n / 64 % 64 ≤ upper := by
  have hb : (UInt8.ofNat (0xE0 + n / 4096)).toNat = 0xE0 + n / 4096 := toNat_ofNat (by omega)
  have hmod : (0xE0 + n / 4096) % 16 = n / 4096 := by omega
  simp only [start, hb]
  rw [if_neg (by omega), if_neg (by omega), if_neg (by omega)]
  by_cases hfirst : n / 4096 = 0
  · rw [if_pos (by omega), hfirst]
    exact ⟨_, _, rfl, by omega, by omega⟩
  · rw [if_neg (by omega)]
    by_cases hsurrogate : n / 4096 = 13
    · rw [if_pos (by omega), hsurrogate]
      exact ⟨_, _, rfl, by omega, by omega⟩
    · rw [if_neg (by omega), if_pos (by omega), hmod]
      exact ⟨_, _, rfl, by omega, by omega⟩

/-- The first of four bytes. -/
theorem start_four {n : ℕ} (h1 : 0x10000 ≤ n) (h2 : n < 0x110000) :
    ∃ lower upper, start (.ofNat (0xF0 + n / 262144)) =
        ([], some { codePoint := n / 262144, needed := 3, lower, upper }) ∧
      lower ≤ 0x80 + n / 4096 % 64 ∧ 0x80 + n / 4096 % 64 ≤ upper := by
  have hb : (UInt8.ofNat (0xF0 + n / 262144)).toNat = 0xF0 + n / 262144 := toNat_ofNat (by omega)
  have hmod : (0xF0 + n / 262144) % 8 = n / 262144 := by omega
  simp only [start, hb]
  rw [if_neg (by omega), if_neg (by omega), if_neg (by omega), if_neg (by omega),
    if_neg (by omega), if_neg (by omega)]
  by_cases hfirst : n / 262144 = 0
  · rw [if_pos (by omega), hfirst]
    exact ⟨_, _, rfl, by omega, by omega⟩
  · rw [if_neg (by omega)]
    by_cases hlast : n / 262144 = 4
    · rw [if_neg (by omega), if_pos (by omega), hlast]
      exact ⟨_, _, rfl, by omega, by omega⟩
    · rw [if_pos (by omega), hmod]
      exact ⟨_, _, rfl, by omega, by omega⟩

theorem decode_encodeChar (c : Char) (rest : List UInt8) :
    decode (encodeChar c ++ rest) = c :: decode rest := by
  have hvalid := toNat_lt_or c
  simp only [encodeChar]
  split
  · rename_i h1
    have hb : (UInt8.ofNat c.toNat).toNat = c.toNat := toNat_ofNat (by omega)
    rw [List.singleton_append, decode_ascii (by omega), hb, Char.ofNat_toNat]
  · rename_i h1
    split
    · rename_i h2
      simp only [List.cons_append, List.nil_append]
      rw [decode_start (start_two (by omega) h2), decodeFrom_last rfl, toNat_continuation]
      · have hn : c.toNat / 64 * 64 + (0x80 + c.toNat % 64) % 64 = c.toNat := by omega
        rw [hn, Char.ofNat_toNat]
      · exact continuation_ge _
      · exact continuation_le _
    · rename_i h2
      split
      · rename_i h3
        obtain ⟨lower, upper, hstart, hlower, hupper⟩ :=
          start_three (n := c.toNat) (by omega) h3 (by omega)
        simp only [List.cons_append, List.nil_append]
        rw [decode_start hstart, decodeFrom_middle (by simp), decodeFrom_last rfl,
          toNat_continuation, toNat_continuation]
        · have hn : (c.toNat / 4096 * 64 + (0x80 + c.toNat / 64 % 64) % 64) * 64 +
              (0x80 + c.toNat % 64) % 64 = c.toNat := by omega
          rw [hn, Char.ofNat_toNat]
        · exact continuation_ge _
        · exact continuation_le _
        · rwa [toNat_continuation]
        · rwa [toNat_continuation]
      · rename_i h3
        obtain ⟨lower, upper, hstart, hlower, hupper⟩ :=
          start_four (n := c.toNat) (by omega) (by omega)
        simp only [List.cons_append, List.nil_append]
        rw [decode_start hstart, decodeFrom_middle (by simp), decodeFrom_middle (by simp),
          decodeFrom_last rfl, toNat_continuation, toNat_continuation, toNat_continuation]
        · have hn : ((c.toNat / 262144 * 64 + (0x80 + c.toNat / 4096 % 64) % 64) * 64 +
              (0x80 + c.toNat / 64 % 64) % 64) * 64 + (0x80 + c.toNat % 64) % 64 = c.toNat := by
            omega
          rw [hn, Char.ofNat_toNat]
        · exact continuation_ge _
        · exact continuation_le _
        · exact continuation_ge _
        · exact continuation_le _
        · rwa [toNat_continuation]
        · rwa [toNat_continuation]

theorem decode_encode (text : List Char) : decode (encode text) = text := by
  induction text with
  | nil => rfl
  | cons c text ih =>
    simp only [encode, List.flatMap_cons] at ih ⊢
    rw [decode_encodeChar, ih]

end Utf8
