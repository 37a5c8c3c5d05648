import Mathlib.Data.List.Infix
import Mathlib.Logic.Function.Basic
import Mathlib.Tactic.Common

/-! Backtracking regular expressions with capture groups. -/
namespace Regex

/-- What each group captured; group 0 is the whole match. -/
abbrev Captures := ℕ → Option (List Char)

inductive Pattern
  | empty
  | chars (p : Char → Bool)
  | plus (p : Char → Bool)
  | seq (a b : Pattern)
  | alt (a b : Pattern)
  | group (n : ℕ) (a : Pattern)

/-- The rests of a text after one or more characters of a class, longest run first. -/
def plusRests (p : Char → Bool) : List Char → List (List Char)
  | [] => []
  | c :: text => if p c then plusRests p text ++ [text] else []

/-- All ways to match a beginning of the text, in the order they are tried. -/
def Pattern.run : Pattern → List Char → Captures → List (Captures × List Char)
  | .empty, text, g => [(g, text)]
  | .chars _, [], _ => []
  | .chars p, c :: text, g => if p c then [(g, text)] else []
  | .plus p, text, g => (plusRests p text).map fun rest => (g, rest)
  | .seq a b, text, g => (a.run text g).flatMap fun r => b.run r.2 r.1
  | .alt a b, text, g => a.run text g ++ b.run text g
  | .group n a, text, g =>
    (a.run text g).map fun r =>
      (Function.update r.1 n (some (text.take (text.length - r.2.length))), r.2)

/-- The first match tried at this position. -/
def Pattern.matchHere (a : Pattern) (text : List Char) : Option Captures :=
  (((Pattern.group 0 a).run text fun _ => none).head?).map Prod.fst

/-- The match at the leftmost position that has one. -/
def Pattern.exec (a : Pattern) : List Char → Option Captures
  | [] => a.matchHere []
  | c :: text =>
    match a.matchHere (c :: text) with
    | some g => some g
    | none => a.exec text

/-- A literal, with the case of its letters ignored. -/
def literal : List Char → Pattern
  | [] => .empty
  | c :: name => .seq (.chars fun d => d.toLower = c.toLower) (literal name)

variable {a b : Pattern} {text rest : List Char} {g g' : Captures} {n : ℕ}

theorem mem_run_alt :
    (g', rest) ∈ (Pattern.alt a b).run text g ↔
      (g', rest) ∈ a.run text g ∨ (g', rest) ∈ b.run text g := by
  simp [Pattern.run]

theorem mem_run_seq :
    (g', rest) ∈ (Pattern.seq a b).run text g ↔
      ∃ h mid, (h, mid) ∈ a.run text g ∧ (g', rest) ∈ b.run mid h := by
  simp [Pattern.run]

/-- A group that took part in the match has captured something. -/
theorem mem_run_group (hm : (g', rest) ∈ (Pattern.group n a).run text g) :
    ∃ h, (h, rest) ∈ a.run text g ∧ ∃ captured, g' = Function.update h n (some captured) := by
  simp only [Pattern.run, List.mem_map, Prod.mk.injEq] at hm
  obtain ⟨r, hr, hg, rfl⟩ := hm
  exact ⟨r.1, hr, _, hg.symm⟩

/-- The groups a pattern has. -/
def Pattern.groups : Pattern → List ℕ
  | .empty => []
  | .chars _ => []
  | .plus _ => []
  | .seq a b => a.groups ++ b.groups
  | .alt a b => a.groups ++ b.groups
  | .group n a => n :: a.groups

/-- A pattern leaves the groups it does not have as they were. -/
theorem run_frame (hn : n ∉ a.groups) (hm : (g', rest) ∈ a.run text g) : g' n = g n := by
  induction a generalizing text rest g g' with
  | empty =>
    simp only [Pattern.run, List.mem_singleton, Prod.mk.injEq] at hm
    rw [hm.1]
  | chars p =>
    cases text with
    | nil => simp [Pattern.run] at hm
    | cons c text =>
      simp only [Pattern.run] at hm
      split at hm
      · simp only [List.mem_singleton, Prod.mk.injEq] at hm
        rw [hm.1]
      · cases hm
  | plus p =>
    simp only [Pattern.run, List.mem_map, Prod.mk.injEq] at hm
    obtain ⟨_, _, hg, _⟩ := hm
    rw [hg]
  | seq a b iha ihb =>
    simp only [Pattern.groups, List.mem_append, not_or] at hn
    obtain ⟨h, mid, ha, hb⟩ := mem_run_seq.mp hm
    exact (ihb hn.2 hb).trans (iha hn.1 ha)
  | alt a b iha ihb =>
    simp only [Pattern.groups, List.mem_append, not_or] at hn
    rcases mem_run_alt.mp hm with ha | hb
    · exact iha hn.1 ha
    · exact ihb hn.2 hb
  | group k a ih =>
    simp only [Pattern.groups, List.mem_cons, not_or] at hn
    obtain ⟨h, ha, captured, rfl⟩ := mem_run_group hm
    rw [Function.update_of_ne hn.1]
    exact ih hn.2 ha

theorem literal_groups (name : List Char) : (literal name).groups = [] := by
  induction name with
  | nil => rfl
  | cons c name ih => simpa [literal, Pattern.groups] using ih

/-- What `exec` finds is one of the ways to match at some position of the text. -/
theorem exec_mem (he : a.exec text = some g) :
    ∃ t rest, (g, rest) ∈ (Pattern.group 0 a).run t fun _ => none := by
  have here : ∀ t, a.matchHere t = some g →
      ∃ rest, (g, rest) ∈ (Pattern.group 0 a).run t fun _ => none := by
    intro t ht
    simp only [Pattern.matchHere, Option.map_eq_some_iff] at ht
    obtain ⟨⟨g', rest⟩, hhead, rfl⟩ := ht
    exact ⟨rest, List.mem_of_mem_head? hhead⟩
  induction text with
  | nil => exact ⟨_, here _ he⟩
  | cons c text ih =>
    simp only [Pattern.exec] at he
    split at he
    · rename_i g' hg
      cases he
      exact ⟨_, here _ hg⟩
    · exact ih he

/-! Which texts match. -/

theorem mem_run_chars {p : Char → Bool} : (g', rest) ∈ (Pattern.chars p).run text g ↔
    g' = g ∧ ∃ c, p c = true ∧ text = c :: rest := by
  cases text with
  | nil => simp [Pattern.run]
  | cons c text =>
    simp only [Pattern.run, List.cons.injEq]
    split
    · rename_i hc
      simp only [List.mem_singleton, Prod.mk.injEq]
      constructor
      · rintro ⟨rfl, rfl⟩
        exact ⟨rfl, c, hc, rfl, rfl⟩
      · rintro ⟨rfl, d, _, _, rfl⟩
        exact ⟨rfl, rfl⟩
    · rename_i hc
      simp only [List.not_mem_nil, false_iff]
      rintro ⟨_, d, hd, rfl, _⟩
      exact hc hd

theorem mem_plusRests {p : Char → Bool} : rest ∈ plusRests p text ↔
    ∃ w, w ≠ [] ∧ (∀ c ∈ w, p c = true) ∧ text = w ++ rest := by
  induction text with
  | nil =>
    simp only [plusRests, List.not_mem_nil, false_iff]
    rintro ⟨w, hw, _, heq⟩
    exact hw (List.append_eq_nil_iff.mp heq.symm).1
  | cons c text ih =>
    simp only [plusRests]
    split
    · rename_i hc
      rw [List.mem_append, ih, List.mem_singleton]
      constructor
      · rintro (⟨w, _, hp, rfl⟩ | rfl)
        · exact ⟨c :: w, by simp, by simpa [hc] using hp, rfl⟩
        · exact ⟨[c], by simp, by simpa using hc, rfl⟩
      · rintro ⟨w, hw, hp, heq⟩
        cases w with
        | nil => exact (hw rfl).elim
        | cons d w =>
          obtain ⟨rfl, rfl⟩ := List.cons.inj heq
          by_cases hnil : w = []
          · subst hnil
            exact Or.inr rfl
          · exact Or.inl ⟨w, hnil, fun c hc => hp c (by simp [hc]), rfl⟩
    · rename_i hc
      simp only [List.not_mem_nil, false_iff]
      rintro ⟨w, hw, hp, heq⟩
      cases w with
      | nil => exact hw rfl
      | cons d w =>
        obtain ⟨rfl, rfl⟩ := List.cons.inj heq
        exact hc (hp c (by simp))

theorem mem_run_plus {p : Char → Bool} : (g', rest) ∈ (Pattern.plus p).run text g ↔
    g' = g ∧ ∃ w, w ≠ [] ∧ (∀ c ∈ w, p c = true) ∧ text = w ++ rest := by
  simp only [Pattern.run, List.mem_map, Prod.mk.injEq]
  constructor
  · rintro ⟨_, hrest, rfl, rfl⟩
    exact ⟨rfl, mem_plusRests.mp hrest⟩
  · rintro ⟨rfl, hw⟩
    exact ⟨rest, mem_plusRests.mpr hw, rfl, rfl⟩

/-- The pattern matches a beginning of `text` and leaves `rest`. -/
def Pattern.Takes : Pattern → List Char → List Char → Prop
  | .empty, text, rest => text = rest
  | .chars p, text, rest => ∃ c, p c = true ∧ text = c :: rest
  | .plus p, text, rest => ∃ w, w ≠ [] ∧ (∀ c ∈ w, p c = true) ∧ text = w ++ rest
  | .seq a b, text, rest => ∃ mid, a.Takes text mid ∧ b.Takes mid rest
  | .alt a b, text, rest => a.Takes text rest ∨ b.Takes text rest
  | .group _ a, text, rest => a.Takes text rest

/-- The ways to match that are tried are all there are. -/
theorem takes_iff : a.Takes text rest ↔ ∃ g', (g', rest) ∈ a.run text g := by
  induction a generalizing text rest g with
  | empty =>
    simp only [Pattern.Takes, Pattern.run, List.mem_singleton, Prod.mk.injEq, exists_eq_left]
    exact eq_comm
  | chars p => simp only [Pattern.Takes, mem_run_chars, exists_eq_left]
  | plus p => simp only [Pattern.Takes, mem_run_plus, exists_eq_left]
  | seq a b iha ihb =>
    simp only [Pattern.Takes, mem_run_seq]
    constructor
    · rintro ⟨mid, ha, hb⟩
      obtain ⟨h, hrun⟩ := (iha (g := g)).mp ha
      obtain ⟨g', hrun'⟩ := (ihb (g := h)).mp hb
      exact ⟨g', h, mid, hrun, hrun'⟩
    · rintro ⟨g', h, mid, hrun, hrun'⟩
      exact ⟨mid, iha.mpr ⟨h, hrun⟩, ihb.mpr ⟨g', hrun'⟩⟩
  | alt a b iha ihb =>
    simp only [Pattern.Takes, mem_run_alt, exists_or]
    exact or_congr iha ihb
  | group n a ih =>
    simp only [Pattern.Takes]
    constructor
    · intro ha
      obtain ⟨h, hrun⟩ := (ih (g := g)).mp ha
      exact ⟨_, List.mem_map.mpr ⟨_, hrun, rfl⟩⟩
    · rintro ⟨g', hm⟩
      obtain ⟨h, hrun, _⟩ := mem_run_group hm
      exact ih.mpr ⟨h, hrun⟩

theorem literal_takes {name : List Char} : (literal name).Takes text rest ↔
    ∃ w, w.map Char.toLower = name.map Char.toLower ∧ text = w ++ rest := by
  induction name generalizing text with
  | nil => simp [literal, Pattern.Takes]
  | cons c name ih =>
    simp only [literal, Pattern.Takes, decide_eq_true_eq, ih]
    constructor
    · rintro ⟨mid, ⟨d, hd, rfl⟩, w, hw, rfl⟩
      exact ⟨d :: w, by simp [hd, hw], rfl⟩
    · rintro ⟨w, hw, rfl⟩
      cases w with
      | nil => cases hw
      | cons d w =>
        obtain ⟨hd, hw⟩ := List.cons.inj hw
        exact ⟨w ++ rest, ⟨d, hd, rfl⟩, w, hw, rfl⟩

/-! The match that is tried first. -/

/-- The first way to match a beginning of the text. -/
def Pattern.first (a : Pattern) (text : List Char) (g : Captures) :
    Option (Captures × List Char) := (a.run text g).head?

theorem first_eq_none : a.first text g = none ↔ ∀ rest, ¬ a.Takes text rest := by
  have htakes : ∀ rest, a.Takes text rest ↔ ∃ g', (g', rest) ∈ a.run text g := fun _ => takes_iff
  simp only [Pattern.first, List.head?_eq_none_iff, List.eq_nil_iff_forall_not_mem, Prod.forall,
    htakes, not_exists]
  exact forall_comm

theorem first_chars {p : Char → Bool} {c : Char} (hc : p c = true) :
    (Pattern.chars p).first (c :: rest) g = some (g, rest) := by
  simp [Pattern.first, Pattern.run, hc]

/-- A class is matched as far as it goes. -/
theorem first_plus {p : Char → Bool} {w : List Char} (hw : w ≠ []) (hp : ∀ c ∈ w, p c = true)
    (hrest : ∀ c, rest.head? = some c → p c = false) :
    (Pattern.plus p).first (w ++ rest) g = some (g, rest) := by
  have hlongest : (plusRests p (w ++ rest)).head? = some rest := by
    induction w with
    | nil => exact (hw rfl).elim
    | cons c w ih =>
      have hc := hp c (by simp)
      simp only [List.cons_append, plusRests, hc, if_true, List.head?_append]
      by_cases hnil : w = []
      · subst hnil
        have hstop : plusRests p rest = [] := by
          cases rest with
          | nil => rfl
          | cons d rest => simp [plusRests, hrest d rfl]
        simp [hstop]
      · rw [ih hnil fun c hc => hp c (by simp [hc])]
        rfl
  simp only [Pattern.first, Pattern.run, List.head?_map, hlongest, Option.map_some]

theorem first_seq {r : Captures × List Char} (ha : a.first text g = some (g', rest))
    (hb : b.first rest g' = some r) : (Pattern.seq a b).first text g = some r := by
  simp only [Pattern.first] at ha hb ⊢
  obtain ⟨others, hrun⟩ := List.head?_eq_some_iff.mp ha
  simp only [Pattern.run, hrun, List.flatMap_cons, List.head?_append, hb, Option.some_or]

theorem first_group {w : List Char} (ha : a.first (w ++ rest) g = some (g', rest)) :
    (Pattern.group n a).first (w ++ rest) g = some (Function.update g' n (some w), rest) := by
  simp only [Pattern.first, Pattern.run, List.head?_map] at ha ⊢
  simp [ha]

theorem first_alt_right (ha : a.first text g = none) :
    (Pattern.alt a b).first text g = b.first text g := by
  simp only [Pattern.first] at ha ⊢
  simp [Pattern.run, ha]

theorem first_literal {w name : List Char} (hw : w.map Char.toLower = name.map Char.toLower) :
    (literal name).first (w ++ rest) g = some (g, rest) := by
  induction name generalizing w with
  | nil =>
    obtain rfl : w = [] := by simpa using hw
    rfl
  | cons c name ih =>
    cases w with
    | nil => cases hw
    | cons d w =>
      obtain ⟨hd, hw⟩ := List.cons.inj hw
      exact first_seq (first_chars (by simpa using hd)) (ih hw)

/-! The leftmost match. -/

theorem matchHere_eq_none : a.matchHere text = none ↔ ∀ rest, ¬ a.Takes text rest := by
  have hgroup : ∀ rest, a.Takes text rest ↔
      ∃ g, (g, rest) ∈ (Pattern.group 0 a).run text fun _ => none := fun rest =>
    takes_iff (a := .group 0 a)
  simp only [Pattern.matchHere, Option.map_eq_none_iff, List.head?_eq_none_iff,
    List.eq_nil_iff_forall_not_mem, Prod.forall, hgroup, not_exists]
  exact forall_comm

theorem matchHere_of_first {w : List Char}
    (hf : a.first (w ++ rest) (fun _ => none) = some (g, rest)) :
    a.matchHere (w ++ rest) = some (Function.update g 0 (some w)) := by
  have hgroup := first_group (n := 0) hf
  simp only [Pattern.first] at hgroup
  simp only [Pattern.matchHere, hgroup, Option.map_some]

theorem exec_of_matchHere (hm : a.matchHere text = some g) : a.exec text = some g := by
  cases text with
  | nil => exact hm
  | cons c text => simp only [Pattern.exec, hm]

/-- Positions without a match are skipped. -/
theorem exec_append {pre : List Char}
    (hpre : ∀ c t, c :: t <:+ pre → a.matchHere (c :: t ++ text) = none) :
    a.exec (pre ++ text) = a.exec text := by
  induction pre with
  | nil => rfl
  | cons c pre ih =>
    have hc := hpre c pre (List.suffix_refl _)
    simp only [List.cons_append] at hc
    simp only [List.cons_append, Pattern.exec, hc]
    exact ih fun d t ht => hpre d t (ht.trans (List.suffix_cons c pre))

/-- Characters that no match begins with are skipped. -/
theorem exec_skip {pre : List Char} {P : Char → Prop}
    (hstart : ∀ c t, a.matchHere (c :: t) ≠ none → P c) (hpre : ∀ c ∈ pre, ¬ P c) :
    a.exec (pre ++ text) = a.exec text := by
  apply exec_append
  intro c t ht
  by_contra hmatch
  exact hpre c (ht.subset List.mem_cons_self) (hstart c (t ++ text) hmatch)

/-- There is no match at all exactly where no position has one. -/
theorem exec_eq_none : a.exec text = none ↔ ∀ t, t <:+ text → a.matchHere t = none := by
  induction text with
  | nil => simp [Pattern.exec]
  | cons c text ih =>
    simp only [Pattern.exec]
    constructor
    · intro hnone t ht
      split at hnone
      · cases hnone
      · rename_i hhere
        rcases List.suffix_cons_iff.mp ht with rfl | ht
        · exact hhere
        · exact ih.mp hnone t ht
    · intro hnone
      rw [hnone (c :: text) (List.suffix_refl _)]
      exact ih.mpr fun t ht => hnone t (ht.trans (List.suffix_cons c text))

end Regex
