import MutualKeyChallenge.Server.Verdicts

/-! What the header extractor makes of a header that anyone may have sent. -/
namespace MutualKeyChallenge
open Regex

/-- One or more characters of the base64 alphabet. -/
def Base64Value (v : List Char) : Prop := v ≠ [] ∧ ∀ c ∈ v, base64Class c = true

instance (v : List Char) : Decidable (Base64Value v) :=
  decidable_of_iff (v ≠ [] ∧ v.all base64Class = true) (and_congr_right' List.all_eq_true)

/-- `w` is the field name `name` up to letter case. -/
def Spells (w : List Char) (name : String) : Prop :=
  w.map Char.toLower = name.toList.map Char.toLower

/-- The key expression matches at the beginning of the text. -/
def KeyAt (k : String) (text : List Char) : Prop :=
  ∃ w v post, Spells w k ∧ Base64Value v ∧ text = w ++ '=' :: (v ++ post)

/-- The challenge expression matches at the beginning of the text: the bare name of a challenge,
or a response with both of its values. -/
def FieldAt (c r : String) (text : List Char) : Prop :=
  (∃ w post, Spells w c ∧ text = w ++ post) ∨
    ∃ w m s post, Spells w r ∧ Base64Value m ∧ Base64Value s ∧
      text = w ++ '=' :: (m ++ ',' :: (s ++ post))

variable {k c r : String} {text : List Char} {g g' : Captures}

theorem keyAt_iff : (keyRegex k).matchHere text ≠ none ↔ KeyAt k text := by
  rw [Ne, matchHere_eq_none]
  simp only [not_forall, not_not, keyRegex, Pattern.Takes, literal_takes, decide_eq_true_eq]
  constructor
  · rintro ⟨post, _, ⟨w, hw, rfl⟩, _, ⟨_, rfl, rfl⟩, v, hne, hclass, rfl⟩
    exact ⟨w, v, post, hw, ⟨hne, hclass⟩, rfl⟩
  · rintro ⟨w, v, post, hw, ⟨hne, hclass⟩, rfl⟩
    exact ⟨post, _, ⟨w, hw, rfl⟩, _, ⟨_, rfl, rfl⟩, v, hne, hclass, rfl⟩

theorem fieldAt_iff : (challengeRegex c r).matchHere text ≠ none ↔ FieldAt c r text := by
  rw [Ne, matchHere_eq_none]
  simp only [not_forall, not_not, challengeRegex, Pattern.Takes, literal_takes, decide_eq_true_eq]
  constructor
  · rintro ⟨post, ⟨w, hw, rfl⟩ | ⟨_, ⟨w, hw, rfl⟩, _, ⟨_, rfl, rfl⟩, _, ⟨m, hm, hm', rfl⟩, _,
      ⟨_, rfl, rfl⟩, s, hs, hs', rfl⟩⟩
    · exact Or.inl ⟨w, post, hw, rfl⟩
    · exact Or.inr ⟨w, m, s, post, hw, ⟨hm, hm'⟩, ⟨hs, hs'⟩, rfl⟩
  · rintro (⟨w, post, hw, rfl⟩ | ⟨w, m, s, post, hw, ⟨hm, hm'⟩, ⟨hs, hs'⟩, rfl⟩)
    · exact ⟨post, Or.inl ⟨w, hw, rfl⟩⟩
    · exact ⟨post, Or.inr ⟨_, ⟨w, hw, rfl⟩, _, ⟨_, rfl, rfl⟩, _, ⟨m, hm, hm', rfl⟩, _,
        ⟨_, rfl, rfl⟩, s, hs, hs', rfl⟩⟩

theorem keyRegex_exec_eq_none :
    (keyRegex k).exec text = none ↔ ∀ t, t <:+ text → ¬ KeyAt k t := by
  simp only [exec_eq_none, ← keyAt_iff, ne_eq, not_not]

theorem challengeRegex_exec_eq_none :
    (challengeRegex c r).exec text = none ↔ ∀ t, t <:+ text → ¬ FieldAt c r t := by
  simp only [exec_eq_none, ← fieldAt_iff, ne_eq, not_not]

theorem keyAt_start {d : Char} (h : KeyAt "uid" (d :: text)) : d.toLower = 'u' := by
  obtain ⟨w, v, post, hw, _, heq⟩ := h
  cases w with
  | nil => cases hw
  | cons e w =>
    obtain ⟨rfl, _⟩ := List.cons.inj heq
    exact (List.cons.inj hw).1

theorem fieldAt_start {d : Char} (h : FieldAt "cha" "res" (d :: text)) :
    d.toLower = 'c' ∨ d.toLower = 'r' := by
  rcases h with ⟨w, post, hw, heq⟩ | ⟨w, m, s, post, hw, _, _, heq⟩
  · cases w with
    | nil => cases hw
    | cons e w =>
      obtain ⟨rfl, _⟩ := List.cons.inj heq
      exact Or.inl (List.cons.inj hw).1
  · cases w with
    | nil => cases hw
    | cons e w =>
      obtain ⟨rfl, _⟩ := List.cons.inj heq
      exact Or.inr (List.cons.inj hw).1

/-! The matches in a header of the documented form. -/

theorem space_toLower {d : Char} (h : isSpace d = true) : d.toLower = d := by
  unfold Char.toLower
  split
  · rename_i hupper
    have hlow : 65 ≤ d.toNat := hupper.1
    have hhigh : d.toNat ≤ 90 := hupper.2
    simp only [isSpace, List.mem_cons, List.not_mem_nil, or_false, decide_eq_true_eq] at h
    omega
  · rfl

/-- A character between two others, as `Char`'s classes test it. -/
theorem toNat_of_between {d : Char} {low high : UInt32}
    (h : (decide (d.val ≥ low) && decide (d.val ≤ high)) = true) :
    low.toNat ≤ d.toNat ∧ d.toNat ≤ high.toNat := by
  obtain ⟨hlow, hhigh⟩ := Bool.and_eq_true_iff.mp h
  exact ⟨of_decide_eq_true hlow, of_decide_eq_true hhigh⟩

theorem base64Class_toNat {d : Char} (h : base64Class d = true) :
    (65 ≤ d.toNat ∧ d.toNat ≤ 90) ∨ (97 ≤ d.toNat ∧ d.toNat ≤ 122) ∨
      (48 ≤ d.toNat ∧ d.toNat ≤ 57) ∨ d.toNat = 43 ∨ d.toNat = 47 ∨ d.toNat = 61 := by
  rcases of_decide_eq_true h with halphanum | rfl | rfl | rfl
  · rcases Bool.or_eq_true_iff.mp halphanum with halpha | hdigit
    · rcases Bool.or_eq_true_iff.mp halpha with hupper | hlower
      · exact Or.inl (of_decide_eq_true hupper)
      · exact Or.inr (Or.inl (toNat_of_between hlower))
    · exact Or.inr (Or.inr (Or.inl (toNat_of_between hdigit)))
  · exact Or.inr (Or.inr (Or.inr (Or.inl rfl)))
  · exact Or.inr (Or.inr (Or.inr (Or.inr (Or.inl rfl))))
  · exact Or.inr (Or.inr (Or.inr (Or.inr (Or.inr rfl))))

theorem base64Class_not_space {d : Char} (h : base64Class d = true) : isSpace d = false := by
  by_contra hspace
  have hclass := base64Class_toNat h
  simp only [Bool.not_eq_false, isSpace, List.mem_cons, List.not_mem_nil, or_false,
    decide_eq_true_eq] at hspace
  omega

/-- A key field at the beginning of the text is captured with its name as written. -/
theorem keyRegex_exec {w v post : List Char} (hw : Spells w k) (hv : Base64Value v)
    (hpost : ∀ d, post.head? = some d → base64Class d = false) :
    ∃ g, (keyRegex k).exec (w ++ '=' :: (v ++ post)) = some g ∧ g 1 = some w := by
  let g1 : Captures := Function.update (fun _ => none) 1 (some w)
  have hname : (Pattern.group 1 (literal k.toList)).first (w ++ '=' :: (v ++ post))
      (fun _ => none) = some (g1, '=' :: (v ++ post)) := first_group (first_literal hw)
  have heq : (Pattern.chars (· = '=')).first ('=' :: (v ++ post)) g1 = some (g1, v ++ post) :=
    first_chars rfl
  have hvalue : (Pattern.group 2 (.plus base64Class)).first (v ++ post) g1 =
      some (Function.update g1 2 (some v), post) := first_group (first_plus hv.1 hv.2 hpost)
  have hfirst : (keyRegex k).first ((w ++ '=' :: v) ++ post) (fun _ => none) =
      some (Function.update g1 2 (some v), post) := by
    simpa [keyRegex] using first_seq hname (first_seq heq hvalue)
  refine ⟨_, exec_of_matchHere (by simpa using matchHere_of_first hfirst), ?_⟩
  simp [g1]

/-- A response field at the end of the text is captured with both of its values. -/
theorem challengeRegex_exec {w m v : List Char} (hw : Spells w r) (hm : Base64Value m)
    (hv : Base64Value v) (hc : ∀ w' post, Spells w' c → w ++ '=' :: (m ++ ',' :: v) ≠ w' ++ post) :
    ∃ g, (challengeRegex c r).exec (w ++ '=' :: (m ++ ',' :: v)) = some g ∧
      g 1 = none ∧ g 3 = some m ∧ g 4 = some v := by
  let g2 : Captures := Function.update (fun _ => none) 2 (some w)
  let g3 : Captures := Function.update g2 3 (some m)
  have hno : (Pattern.group 1 (literal c.toList)).first (w ++ '=' :: (m ++ ',' :: v))
      (fun _ => none) = none := by
    rw [first_eq_none]
    intro rest htakes
    obtain ⟨w', hw', heq⟩ := literal_takes.mp htakes
    exact hc w' rest hw' heq
  have hname : (Pattern.group 2 (literal r.toList)).first (w ++ '=' :: (m ++ ',' :: v))
      (fun _ => none) = some (g2, '=' :: (m ++ ',' :: v)) := first_group (first_literal hw)
  have heq : (Pattern.chars (· = '=')).first ('=' :: (m ++ ',' :: v)) g2 =
      some (g2, m ++ ',' :: v) := first_chars rfl
  have hcomma : base64Class ',' = false := by decide
  have hmessage : (Pattern.group 3 (.plus base64Class)).first (m ++ ',' :: v) g2 =
      some (g3, ',' :: v) := by
    refine first_group (first_plus hm.1 hm.2 ?_)
    intro d hd
    cases hd
    exact hcomma
  have hsep : (Pattern.chars (· = ',')).first (',' :: v) g3 = some (g3, v) := first_chars rfl
  have hsignature : (Pattern.group 4 (.plus base64Class)).first (v ++ []) g3 =
      some (Function.update g3 4 (some v), []) :=
    first_group (first_plus hv.1 hv.2 (by simp))
  rw [List.append_nil] at hsignature
  have hfirst : (challengeRegex c r).first ((w ++ '=' :: (m ++ ',' :: v)) ++ []) (fun _ => none) =
      some (Function.update g3 4 (some v), []) := by
    rw [List.append_nil, challengeRegex, first_alt_right hno]
    exact first_seq hname (first_seq heq (first_seq hmessage (first_seq hsep hsignature)))
  refine ⟨_, exec_of_matchHere (by simpa using matchHere_of_first hfirst), ?_⟩
  simp [g2, g3]

/-- `Mutual`, whitespace, the user id, and a field with its two values. -/
def headerText (space userId field message signature : List Char) : List Char :=
  "Mutual".toList ++ (space ++ ("uid".toList ++ '=' ::
    (userId ++ ',' :: (field ++ '=' :: (message ++ ',' :: signature)))))

/-- The header has the documented form, with these values and a field of this name. -/
def InGrammar (name : String) (header userId message signature : List Char) : Prop :=
  ∃ space field, space ≠ [] ∧ (∀ d ∈ space, isSpace d = true) ∧ Base64Value userId ∧
    Spells field name ∧ Base64Value message ∧ Base64Value signature ∧
    header = headerText space userId field message signature

section Form
variable {space userId field message signature : List Char}

theorem headerText_eq : headerText space userId field message signature =
    "Mutual".toList ++ (space ++ ("uid".toList ++ '=' ::
      (userId ++ ',' :: (field ++ '=' :: (message ++ ',' :: signature))))) := rfl

/-- The key field is the first thing that the key expression matches, as written. -/
theorem headerText_key (hspace : ∀ d ∈ space, isSpace d = true) (hu : Base64Value userId) :
    ∃ g, (keyRegex "uid").exec (headerText space userId field message signature) = some g ∧
      g 1 = some "uid".toList := by
  have hskip : ∀ tail, (keyRegex "uid").exec ("Mutual".toList ++ (space ++ tail)) =
      (keyRegex "uid").exec tail := by
    intro tail
    have hmutual : (keyRegex "uid").exec ("Mutual".toList ++ (space ++ tail)) =
        (keyRegex "uid").exec (space ++ tail) := rfl
    rw [hmutual]
    refine exec_skip (fun d t hd => keyAt_start (keyAt_iff.mp hd)) ?_
    intro d hd hlower
    rw [space_toLower (hspace d hd)] at hlower
    subst hlower
    exact absurd (hspace _ hd) (by decide)
  rw [headerText_eq, hskip]
  refine keyRegex_exec rfl hu ?_
  intro d hd
  cases hd
  decide

/-- When the user id holds no name of a field, the field is what the challenge expression finds. -/
theorem headerText_field (hspace : ∀ d ∈ space, isSpace d = true) (hf : Spells field "res")
    (hm : Base64Value message) (hs : Base64Value signature) :
    ∃ g, (challengeRegex "cha" "res").exec
        (headerText space "uid".toList field message signature) = some g ∧
      g 1 = none ∧ g 3 = some message ∧ g 4 = some signature := by
  have hpre : ∀ d ∈ "Mutual".toList ++ (space ++ "uid=uid,".toList),
      ¬ (d.toLower = 'c' ∨ d.toLower = 'r') := by
    have hall : ("Mutual".toList ++ "uid=uid,".toList).all
        (fun d => ¬ (d.toLower = 'c' ∨ d.toLower = 'r')) = true := rfl
    intro d hd
    rcases List.mem_append.mp hd with hd | hd
    · exact of_decide_eq_true (List.all_eq_true.mp hall d (List.mem_append_left _ hd))
    · rcases List.mem_append.mp hd with hd | hd
      · rw [space_toLower (hspace d hd)]
        rintro (rfl | rfl)
        · exact absurd (hspace _ hd) (by decide)
        · exact absurd (hspace _ hd) (by decide)
      · exact of_decide_eq_true (List.all_eq_true.mp hall d (List.mem_append_right _ hd))
  have hsplit : headerText space "uid".toList field message signature =
      "Mutual".toList ++ (space ++ "uid=uid,".toList) ++
        (field ++ '=' :: (message ++ ',' :: signature)) := by
    have huid : ∀ rest, "uid".toList ++ '=' :: ("uid".toList ++ ',' :: rest) =
        "uid=uid,".toList ++ rest := fun _ => rfl
    rw [headerText_eq, huid]
    simp only [List.append_assoc]
  rw [hsplit, exec_skip (fun d t hd => fieldAt_start (fieldAt_iff.mp hd)) hpre]
  refine challengeRegex_exec hf hm hs ?_
  intro w' post hw' heq
  -- the first letter of a response's name is not that of a challenge's
  cases w' with
  | nil => cases hw'
  | cons d w' =>
    cases field with
    | nil => cases hf
    | cons e field =>
      obtain ⟨rfl, _⟩ := List.cons.inj heq
      have hc := (List.cons.inj hw').1
      rw [(List.cons.inj hf).1] at hc
      exact absurd hc (by decide)

end Form

/-! What the extractor returns. -/

theorem trim_eq_self {text : List Char} (hhead : ∀ d, text.head? = some d → isSpace d = false)
    (hlast : ∀ d, text.getLast? = some d → isSpace d = false) : trim text = text := by
  have hdrop : ∀ l : List Char, (∀ d, l.head? = some d → isSpace d = false) →
      l.dropWhile isSpace = l := by
    intro l hl
    cases l with
    | nil => rfl
    | cons d l => simp [hl d rfl]
  rw [trim, hdrop text hhead, hdrop, List.reverse_reverse]
  rwa [List.head?_reverse]

section Result
variable {node : NodeBuffer} {req : HttpRequest} {now : ℕ} {authorization : List Char}
  {space userId field message signature : List Char}

theorem headerText_trim (hs : Base64Value signature) :
    trim (headerText space userId field message signature) =
      headerText space userId field message signature := by
  apply trim_eq_self
  · intro d hd
    cases hd
    decide
  · intro d hd
    obtain ⟨pre, last, rfl⟩ := (List.eq_nil_or_concat' signature).resolve_left hs.1
    have hsplit : headerText space userId field message (pre ++ [last]) =
        "Mutual".toList ++ (space ++ ("uid".toList ++ '=' ::
          (userId ++ ',' :: (field ++ '=' :: (message ++ ',' :: pre))))) ++ [last] := by
      simp [headerText_eq]
    rw [hsplit, List.getLast?_concat] at hd
    cases hd
    exact base64Class_not_space (hs.2 _ (by simp))

theorem challengeByBase64Header_error (node : NodeBuffer) (now : ℕ)
    (h : ∀ authorization, req.authorization = some authorization →
      "Mutual".toList.isPrefixOf (trim authorization) = true →
      (keyRegex k).exec (trim authorization) = none ∨
        (challengeRegex c r).exec (trim authorization) = none) :
    ∃ error, challengeByBase64Header node k c r req now = .ok (.challengeError error) := by
  unfold challengeByBase64Header
  split
  · exact ⟨_, rfl⟩
  · rename_i authHeader hsome
    simp only [Option.filter_eq_some_iff, Option.map_eq_some_iff] at hsome
    obtain ⟨⟨authorization, ha, rfl⟩, hp⟩ := hsome
    rcases h authorization ha hp with hkey | hfield
    · rw [hkey]
      exact ⟨_, rfl⟩
    · rw [hfield]
      split
      · exact ⟨_, rfl⟩
      · exact ⟨_, rfl⟩

/-- A header in which not both fields are found lacks one of them. -/
theorem missing_of_not_found (h : ¬ ∃ authorization, req.authorization = some authorization ∧
      "Mutual".toList.isPrefixOf (trim authorization) = true ∧
      (keyRegex k).exec (trim authorization) ≠ none ∧
      (challengeRegex c r).exec (trim authorization) ≠ none)
    (authorization : List Char) (ha : req.authorization = some authorization)
    (hp : "Mutual".toList.isPrefixOf (trim authorization) = true) :
    (keyRegex k).exec (trim authorization) = none ∨
      (challengeRegex c r).exec (trim authorization) = none := by
  by_contra hboth
  rw [not_or] at hboth
  exact h ⟨authorization, ha, hp, hboth⟩

/-- Where both expressions match without a bare challenge name, the extractor returns a response
for the name of the key field. -/
theorem challengeByBase64Header_response (ha : req.authorization = some authorization)
    (hp : "Mutual".toList.isPrefixOf (trim authorization) = true)
    (hk : (keyRegex k).exec (trim authorization) = some g)
    (hc : (challengeRegex c r).exec (trim authorization) = some g') (h1 : g' 1 = none)
    (h3 : g' 3 = some message) (h4 : g' 4 = some signature) :
    challengeByBase64Header node k c r req now = .ok (.clientResponse
      ⟨keyValue g, ⟨Base64.decode message, Base64.decode signature⟩⟩) := by
  have hdata : SignedMessage.ofCaptures node g' =
      .ok ⟨Base64.decode message, Base64.decode signature⟩ := by
    simp only [SignedMessage.ofCaptures, h3, h4, Option.map_some, NodeBuffer.fromBase64]
  have hsome : (req.authorization.map trim).filter ("Mutual".toList.isPrefixOf ·) =
      some (trim authorization) := by
    simp only [ha, Option.map_some, Option.filter_some, hp, if_true]
  unfold challengeByBase64Header
  simp only [hsome, hk, hc, hdata, h1, ne_eq, not_true_eq_false, false_and, if_false]

/-- Where both expressions match, the extractor throws or returns a response for the name of the
key field. -/
theorem challengeByBase64Header_matched {x : Extracted UserId Bytes}
    (ha : req.authorization = some authorization)
    (hp : "Mutual".toList.isPrefixOf (trim authorization) = true)
    (hk : (keyRegex k).exec (trim authorization) = some g)
    (hc : (challengeRegex c r).exec (trim authorization) ≠ none)
    (hx : challengeByBase64Header node k c r req now = .ok x) :
    ∃ data, x = .clientResponse ⟨keyValue g, data⟩ := by
  obtain ⟨g', hc⟩ := Option.ne_none_iff_exists'.mp hc
  have h1 : g' 1 = none :=
    challengeByBase64Header_ok.mp ⟨x, hx⟩ authorization ha hp (by simp [hk]) g' hc
  rcases challengeRegex_captures hc with ⟨name, hname, _⟩ | ⟨_, message, signature, h3, h4⟩
  · rw [h1] at hname
    cases hname
  · rw [challengeByBase64Header_response ha hp hk hc h1 h3 h4] at hx
    cases hx
    exact ⟨_, rfl⟩

/-- No header is ever decoded as a challenge: its message group is in the other alternative. -/
theorem challengeByBase64Header_ne_challenge {m : ClientChallenge UserId Bytes} :
    challengeByBase64Header node k c r req now ≠ .ok (.clientChallenge m) := by
  intro hx
  by_cases hfound : ∃ authorization, req.authorization = some authorization ∧
      "Mutual".toList.isPrefixOf (trim authorization) = true ∧
      (keyRegex k).exec (trim authorization) ≠ none ∧
      (challengeRegex c r).exec (trim authorization) ≠ none
  · obtain ⟨authorization, ha, hp, hk, hc⟩ := hfound
    obtain ⟨g, hk⟩ := Option.ne_none_iff_exists'.mp hk
    obtain ⟨data, hdata⟩ := challengeByBase64Header_matched ha hp hk hc hx
    cases hdata
  · obtain ⟨error, he⟩ := challengeByBase64Header_error node now
      (missing_of_not_found hfound)
    rw [he] at hx
    cases hx

/-- A header of the documented form gets as far as the challenge expression, with the name of the
key field for its user. -/
theorem InGrammar.key {name : String} {header : List Char}
    (hin : InGrammar name header userId message signature) :
    "Mutual".toList.isPrefixOf header = true ∧
      ∃ g, (keyRegex "uid").exec header = some g ∧ keyValue g = .string "uid".toList := by
  obtain ⟨space, field, _, hspace, hu, _, _, _, rfl⟩ := hin
  obtain ⟨g, hk, hkey⟩ : ∃ g, (keyRegex "uid").exec
      (headerText space userId field message signature) = some g ∧ g 1 = some "uid".toList :=
    headerText_key hspace hu
  refine ⟨List.isPrefixOf_iff_prefix.mpr (List.prefix_append _ _), g, hk, ?_⟩
  rw [keyValue, hkey, Option.getD_some]

/-- A response of the documented form that names `uid` as its user is decoded as it was meant. -/
theorem challengeByBase64Header_uid (ha : req.authorization = some authorization)
    (hin : InGrammar "res" (trim authorization) "uid".toList message signature) :
    challengeByBase64Header node "uid" "cha" "res" req now = .ok (.clientResponse
      ⟨.string "uid".toList, ⟨Base64.decode message, Base64.decode signature⟩⟩) := by
  obtain ⟨hp, g, hk, hvalue⟩ := hin.key
  obtain ⟨space, field, _, hspace, _, hf, hm, hs, heq⟩ := hin
  obtain ⟨g', hc, h1, h3, h4⟩ := headerText_field hspace hf hm hs
  rw [← heq] at hc
  rw [challengeByBase64Header_response ha hp hk hc h1 h3 h4, hvalue]

end Result

/-! What the extractor makes of a response, whose user id stands before everything else. -/

/-- The request of a response of the documented form. -/
def resHeader (userId message signature : List Char) : HttpRequest :=
  { authorization := some (headerText [' '] userId "res".toList message signature) }

/-- The responses of two users with the same values are decoded to the same record, but for the
user id, which is each user's own. -/
def IdKeptApart (node : NodeBuffer) (user other message signature : List Char) : Prop :=
  ∀ userId ∈ [user, other], ∀ now,
    challengeByBase64Header node "uid" "cha" "res" (resHeader userId message signature) now =
      .ok (.clientResponse
        ⟨.string userId, ⟨Base64.decode message, Base64.decode signature⟩⟩)

section Response
variable {node : NodeBuffer} {user other userId message signature : List Char} {now : ℕ}

theorem resHeader_inGrammar (hu : Base64Value userId) (hm : Base64Value message)
    (hs : Base64Value signature) :
    InGrammar "res" (trim (headerText [' '] userId "res".toList message signature)) userId message
      signature := by
  have hspace : ∀ d ∈ [' '], isSpace d = true := List.forall_mem_singleton.mpr rfl
  exact ⟨[' '], "res".toList, by simp, hspace, hu, rfl, hm, hs, headerText_trim hs⟩

/-- The user id is lost: whatever it is, what the extractor returns is for the user `uid`. -/
theorem resHeader_userId (hu : Base64Value userId) (hm : Base64Value message)
    (hs : Base64Value signature) {m : ClientResponse UserId Bytes}
    (hx : challengeByBase64Header node "uid" "cha" "res" (resHeader userId message signature) now =
      .ok (.clientResponse m)) : m.userId = .string "uid".toList := by
  obtain ⟨hp, g, hk, hvalue⟩ := (resHeader_inGrammar hu hm hs).key
  have ha : (resHeader userId message signature).authorization =
      some (headerText [' '] userId "res".toList message signature) := rfl
  have hc : (challengeRegex "cha" "res").exec
      (trim (headerText [' '] userId "res".toList message signature)) ≠ none := by
    intro hnone
    obtain ⟨error, he⟩ := challengeByBase64Header_error node now
      (fun a ha' _ => Or.inr (Option.some.inj (ha.symm.trans ha') ▸ hnone))
    rw [he] at hx
    cases hx
  obtain ⟨data, hdata⟩ := challengeByBase64Header_matched ha hp hk hc hx
  cases hdata
  exact hvalue

/-- The user id stays apart from the rest exactly when both users are called `uid`. -/
theorem id_kept_apart_iff (hu : Base64Value user) (ho : Base64Value other)
    (hm : Base64Value message) (hs : Base64Value signature) :
    IdKeptApart node user other message signature ↔
      user = "uid".toList ∧ other = "uid".toList := by
  have hkept : ∀ userId, Base64Value userId → (∀ now,
      challengeByBase64Header node "uid" "cha" "res" (resHeader userId message signature) now =
        .ok (.clientResponse
          ⟨.string userId, ⟨Base64.decode message, Base64.decode signature⟩⟩)) →
      userId = "uid".toList := by
    intro userId hvalue hx
    exact UserId.string.inj (resHeader_userId hvalue hm hs (hx 0))
  constructor
  · intro h
    exact ⟨hkept user hu (h user (by simp)), hkept other ho (h other (by simp))⟩
  · rintro ⟨rfl, rfl⟩ userId hmem now
    obtain rfl : userId = "uid".toList := by
      rcases List.mem_pair.mp hmem with heq | heq
      · exact heq
      · exact heq
    exact challengeByBase64Header_uid rfl (resHeader_inGrammar hu hm hs)

end Response

def noBuffer : NodeBuffer := ⟨fun _ => .error .typeError⟩

/-- The response of alice is decoded to one of the user `uid`, and that of cha is not decoded. -/
theorem id_kept_apart_alice :
    ¬ IdKeptApart noBuffer "alice".toList "cha".toList "YQ==".toList "Yg==".toList := by
  intro h
  cases h "alice".toList List.mem_cons_self 0

theorem id_kept_apart_uid :
    IdKeptApart noBuffer "uid".toList "uid".toList "YQ==".toList "Yg==".toList :=
  (id_kept_apart_iff (by decide) (by decide) (by decide) (by decide)).mpr ⟨rfl, rfl⟩

/-! What the extractor accepts. -/

/-- An error, or the values of a header of the documented form with the field of its kind. -/
def DocumentedRecord (req : HttpRequest) : Extracted UserId Bytes → Prop
  | .challengeError _ => True
  | .clientChallenge m =>
    ∃ authorization userId message signature, req.authorization = some authorization ∧
      InGrammar "cha" (trim authorization) userId message signature ∧ m.userId = .string userId ∧
      m.clientRequested = ⟨Base64.decode message, Base64.decode signature⟩
  | .clientResponse m =>
    ∃ authorization userId message signature, req.authorization = some authorization ∧
      InGrammar "res" (trim authorization) userId message signature ∧ m.userId = .string userId ∧
      m.clientResponsed = ⟨Base64.decode message, Base64.decode signature⟩

/-- The extractor does not throw, and takes nothing but headers of the documented form. -/
def AcceptsDocumentedOnly (node : NodeBuffer) (req : HttpRequest) : Prop :=
  ∀ now, ∃ x, challengeByBase64Header node "uid" "cha" "res" req now = .ok x ∧
    DocumentedRecord req x

/-- A header of the scheme in which both expressions match somewhere is a documented response of
the user `uid`. -/
def MatchesResponseOnly (req : HttpRequest) : Prop :=
  ∀ authorization, req.authorization = some authorization →
    "Mutual".toList.isPrefixOf (trim authorization) = true →
    (∃ t, t <:+ trim authorization ∧ KeyAt "uid" t) →
    (∃ t, t <:+ trim authorization ∧ FieldAt "cha" "res" t) →
    ∃ message signature, InGrammar "res" (trim authorization) "uid".toList message signature

section Acceptance
variable {node : NodeBuffer} {req : HttpRequest}

/-- The extractor keeps to the documented form exactly for the requests in which it finds both
fields only in a response of the user `uid`. -/
theorem accepts_documented_only_iff :
    AcceptsDocumentedOnly node req ↔ MatchesResponseOnly req := by
  constructor
  · intro h authorization ha hp hkey hfield
    obtain ⟨x, hx, hrecord⟩ := h 0
    obtain ⟨t, ht, hkeyAt⟩ := hkey
    have hk : (keyRegex "uid").exec (trim authorization) ≠ none :=
      fun hnone => keyRegex_exec_eq_none.mp hnone t ht hkeyAt
    obtain ⟨t', ht', hfieldAt⟩ := hfield
    have hc : (challengeRegex "cha" "res").exec (trim authorization) ≠ none :=
      fun hnone => challengeRegex_exec_eq_none.mp hnone t' ht' hfieldAt
    obtain ⟨g, hk⟩ := Option.ne_none_iff_exists'.mp hk
    obtain ⟨data, rfl⟩ := challengeByBase64Header_matched ha hp hk hc hx
    obtain ⟨a, userId, message, signature, ha', hin, huser, _⟩ := hrecord
    cases ha.symm.trans ha'
    obtain ⟨_, g', hk', hvalue⟩ := hin.key
    cases hk.symm.trans hk'
    obtain rfl : userId = "uid".toList := UserId.string.inj (huser.symm.trans hvalue)
    exact ⟨message, signature, hin⟩
  · intro h now
    by_cases hfound : ∃ authorization, req.authorization = some authorization ∧
        "Mutual".toList.isPrefixOf (trim authorization) = true ∧
        (keyRegex "uid").exec (trim authorization) ≠ none ∧
        (challengeRegex "cha" "res").exec (trim authorization) ≠ none
    · obtain ⟨authorization, ha, hp, hk, hc⟩ := hfound
      rw [Ne, keyRegex_exec_eq_none] at hk
      rw [Ne, challengeRegex_exec_eq_none] at hc
      push Not at hk hc
      obtain ⟨message, signature, hin⟩ := h authorization ha hp hk hc
      exact ⟨_, challengeByBase64Header_uid ha hin, authorization, "uid".toList, message,
        signature, ha, hin, rfl, rfl⟩
    · obtain ⟨error, he⟩ := challengeByBase64Header_error node now
        (missing_of_not_found hfound)
      exact ⟨_, he, trivial⟩

/-- A bare name of the challenge field is enough to make the extractor throw. -/
theorem bare_challenge_throws :
    ¬ AcceptsDocumentedOnly noBuffer { authorization := some "Mutual uid=YQ==,cha".toList } := by
  intro h
  obtain ⟨x, hx, _⟩ := h 0
  cases hx

end Acceptance

end MutualKeyChallenge
