import Mathlib.Tactic.Common

/-!
# Regular expressions matched by backtracking

The part of Python's `re` that the patterns here use: classes of characters, sequences,
alternatives, greedy repetitions and options, `\b`, and one character of look-behind or
look-ahead.

* A pattern is matched at a `Place` of a text, given by the character before it and the characters
  from it on. `ends` lists the places where a match may end, in the order in which backtracking
  tries them, so the first one is the match that `re` finds.
* `sub` is `pattern.sub(replacement, text)`: the matches found from left to right, none
  overlapping the one before. `fullmatch` is `pattern.fullmatch(text)`.
* `Lang` is the texts that a pattern describes, its assertions left out. A pattern is `Plain` when
  it has no assertions and repeats nothing that may be empty.
* What `\s`, `\w`, `\d` and `re.IGNORECASE` mean is a parameter (`UnicodeTables`), since they are
  read off the Unicode database; `UnicodeTables.ascii` is its part for ASCII.

Results:
* `mem_ends_iff`: the ends of a plain pattern are what is left of the text behind a word of its
  language.
* `fullmatch_iff`: a plain pattern matches exactly the texts of its language.

Out of scope: groups and back references, lazy and possessive repetitions, and a replacement that
refers to the match.
-/

namespace Ticketing.Lib

/-- What `re` takes from the Unicode database. -/
structure UnicodeTables where
  /-- `str.isspace`, `\s`. -/
  isSpace : Char → Bool
  /-- `str.isalnum`. -/
  isAlnum : Char → Bool
  /-- `str.isdecimal`, `\d`. -/
  isDecimal : Char → Bool
  /-- The lower case of one character. -/
  lower : Char → Char

/-- The tables, for ASCII. -/
def UnicodeTables.ascii : UnicodeTables where
  isSpace c := c = ' ' || ('\t' ≤ c && c ≤ '\r') || ('\x1c' ≤ c && c ≤ '\x1f')
  isAlnum c := ('a' ≤ c && c ≤ 'z') || ('A' ≤ c && c ≤ 'Z') || ('0' ≤ c && c ≤ '9')
  isDecimal c := '0' ≤ c && c ≤ '9'
  lower := Char.toLower

/-- `\w`. -/
def UnicodeTables.isWord (U : UnicodeTables) (c : Char) : Bool := U.isAlnum c || c = '_'

/-- A character of a class of lower case characters, whatever the case: `re` also lets the dotless i
and the long s pass for the letters whose upper case they share. -/
def UnicodeTables.caseless (U : UnicodeTables) (p : Char → Bool) (c : Char) : Bool :=
  p (U.lower c) || (U.lower c = 'ı' && p 'i') || (U.lower c = 'ſ' && p 's')

inductive Regex
  /-- One character of a class. -/
  | one (p : Char → Bool)
  | seq (r s : Regex)
  | alt (r s : Regex)
  /-- At least `min` times, as often as possible. -/
  | many (min : Nat) (r : Regex)
  | opt (r : Regex)
  /-- `\b`, for a class of word characters. -/
  | boundary (word : Char → Bool)
  /-- `(?<!…)`. -/
  | notBehind (p : Char → Bool)
  /-- `(?!…)`. -/
  | notAhead (p : Char → Bool)

namespace Regex

/-- A place of a text: the character before it, and the text from it on. -/
abbrev Place := Option Char × List Char

/-- `r`, at least `min` times, where `step` lists the ends of one `r`. -/
def repeated (step : Place → List Place) : Nat → Nat → Place → List Place
  | 0, min, place => if min = 0 then [place] else []
  | fuel + 1, min, place =>
    ((step place).filter fun e => e.2.length < place.2.length).flatMap
      (repeated step fuel (min - 1)) ++
      if min = 0 then [place] else []

/-- Where a match of `r` may end. -/
def ends : Regex → Place → List Place
  | one p, (_, c :: cs) => if p c then [(some c, cs)] else []
  | one _, (_, []) => []
  | seq r s, place => (r.ends place).flatMap s.ends
  | alt r s, place => r.ends place ++ s.ends place
  | many min r, place => repeated r.ends place.2.length min place
  | opt r, place => r.ends place ++ [place]
  | boundary word, place => if place.1.any word = place.2.head?.any word then [] else [place]
  | notBehind p, place => if place.1.any p then [] else [place]
  | notAhead p, place => if place.2.head?.any p then [] else [place]

/-- A word in lower case, under a reading of the letters. -/
def word (reading : (Char → Bool) → Char → Bool) : List Char → Regex
  | [] => many 0 (one fun _ => false)
  | c :: cs => seq (one (reading (· = c))) (word reading cs)

/-- `pattern.sub(replacement, text)` from a place on. No pattern of the program matches nothing. -/
def substitute (r : Regex) (replacement : List Char) : Nat → Place → List Char
  | fuel + 1, (before, c :: cs) =>
    match (r.ends (before, c :: cs)).head? with
    | some (last, rest) =>
      if rest.length ≤ cs.length then replacement ++ substitute r replacement fuel (last, rest)
      else c :: substitute r replacement fuel (some c, cs)
    | none => c :: substitute r replacement fuel (some c, cs)
  | _, (_, cs) => cs

/-- `pattern.sub(replacement, text)`. -/
def sub (r : Regex) (replacement text : String) : String :=
  String.ofList (r.substitute replacement.toList text.toList.length (none, text.toList))

/-- `pattern.fullmatch(text)`. -/
def fullmatch (r : Regex) (text : String) : Bool :=
  (r.ends (none, text.toList)).any fun e => e.2.isEmpty

/-! ## The language of a pattern without assertions -/

/-- The texts a pattern describes, its assertions left out. -/
def Lang : Regex → List Char → Prop
  | one p, s => ∃ c, p c = true ∧ s = [c]
  | seq r r', s => ∃ u v, r.Lang u ∧ r'.Lang v ∧ s = u ++ v
  | alt r r', s => r.Lang s ∨ r'.Lang s
  | many min r, s =>
    ∃ pieces : List (List Char), min ≤ pieces.length ∧ (∀ u ∈ pieces, r.Lang u) ∧ s = pieces.flatten
  | opt r, s => r.Lang s ∨ s = []
  | _, s => s = []

/-- No assertions, and no repetition of what may be empty. -/
def Plain : Regex → Prop
  | one _ => True
  | seq r r' | alt r r' => r.Plain ∧ r'.Plain
  | many _ r => r.Plain ∧ ¬ r.Lang []
  | opt r => r.Plain
  | _ => False

/-- The repetitions of a step that ends where a text of `L` does. -/
theorem mem_repeated {step : Place → List Place} {L : List Char → Prop} (hL : ¬ L [])
    (hstep : ∀ b cs rest, (∃ b', (b', rest) ∈ step (b, cs)) ↔ ∃ s, L s ∧ cs = s ++ rest)
    {fuel : Nat} {min : Nat} {b : Option Char} {cs rest : List Char} (hf : cs.length ≤ fuel) :
    (∃ b', (b', rest) ∈ repeated step fuel min (b, cs)) ↔
      ∃ pieces : List (List Char), min ≤ pieces.length ∧ (∀ u ∈ pieces, L u) ∧
        cs = pieces.flatten ++ rest := by
  induction fuel generalizing min b cs with
  | zero =>
    obtain rfl : cs = [] := List.length_eq_zero_iff.mp (by omega)
    constructor
    · rintro ⟨b', h⟩
      rw [repeated] at h
      split_ifs at h with hm
      · obtain ⟨rfl, rfl⟩ : b' = b ∧ rest = [] := by simpa using h
        exact ⟨[], by omega, nofun, rfl⟩
      · cases h
    · rintro ⟨pieces, hm, hp, he⟩
      obtain ⟨hpieces, rfl⟩ : pieces.flatten = [] ∧ rest = [] := by simpa using he.symm
      cases pieces with
      | nil =>
        obtain rfl : min = 0 := by simpa using hm
        exact ⟨b, by simp [repeated]⟩
      | cons u us =>
        have hu : u = [] := List.flatten_eq_nil_iff.mp hpieces u (by simp)
        exact absurd (hu ▸ hp u (by simp)) hL
  | succ fuel ih =>
    constructor
    · rintro ⟨b', h⟩
      rw [repeated, List.mem_append] at h
      rcases h with h | h
      · obtain ⟨⟨b₁, mid⟩, hmid, hrest⟩ := List.mem_flatMap.mp h
        obtain ⟨hmid, hlt⟩ := List.mem_filter.mp hmid
        have hlt : mid.length < cs.length := by simpa using hlt
        obtain ⟨u, hu, rfl⟩ := (hstep b cs mid).mp ⟨b₁, hmid⟩
        obtain ⟨pieces, hm, hp, rfl⟩ := (ih (by omega)).mp ⟨b', hrest⟩
        refine ⟨u :: pieces, by simp only [List.length_cons]; omega, ?_, by simp⟩
        rw [List.forall_mem_cons]
        exact ⟨hu, hp⟩
      · split_ifs at h with hm
        · obtain ⟨rfl, rfl⟩ : b' = b ∧ rest = cs := by simpa using h
          exact ⟨[], by omega, nofun, rfl⟩
        · cases h
    · rintro ⟨pieces, hm, hp, rfl⟩
      cases pieces with
      | nil =>
        obtain rfl : min = 0 := by simpa using hm
        exact ⟨b, by simp [repeated]⟩
      | cons u us =>
        rw [List.forall_mem_cons] at hp
        have hu : u ≠ [] := fun h => hL (h ▸ hp.1)
        have hpos := List.length_pos_iff.mpr hu
        obtain ⟨b₁, h₁⟩ := (hstep b _ (us.flatten ++ rest)).mpr ⟨u, hp.1, rfl⟩
        have hlen : (us.flatten ++ rest).length ≤ fuel := by
          simp only [List.flatten_cons, List.append_assoc, List.length_append] at hf ⊢
          omega
        obtain ⟨b₂, h₂⟩ := (@ih (min - 1) b₁ _ hlen).mpr
          ⟨us, by simp only [List.length_cons] at hm; omega, hp.2, rfl⟩
        refine ⟨b₂, ?_⟩
        rw [repeated, List.mem_append]
        refine .inl (List.mem_flatMap.mpr ⟨(b₁, us.flatten ++ rest),
          List.mem_filter.mpr ⟨?_, ?_⟩, h₂⟩)
        · simpa using h₁
        · simp only [List.flatten_cons, List.append_assoc, List.length_append, decide_eq_true_eq]
          omega

/-- A match of a plain pattern may end exactly where a text of its language does. -/
theorem mem_ends_iff {r : Regex} (h : r.Plain) (b : Option Char) (cs rest : List Char) :
    (∃ b', (b', rest) ∈ r.ends (b, cs)) ↔ ∃ s, r.Lang s ∧ cs = s ++ rest := by
  induction r generalizing b cs rest with
  | one p =>
    cases cs with
    | nil => simp [ends, Lang]
    | cons c cs =>
      by_cases hc : p c = true
      · simp only [ends, hc, if_true, List.mem_singleton, Prod.mk.injEq, Lang]
        constructor
        · rintro ⟨-, -, rfl⟩
          exact ⟨[c], ⟨c, hc, rfl⟩, rfl⟩
        · rintro ⟨s, ⟨c', -, rfl⟩, he⟩
          exact ⟨_, rfl, (List.cons.inj he).2.symm⟩
      · simp only [ends, if_neg hc, Lang, List.not_mem_nil, exists_false, false_iff]
        rintro ⟨s, ⟨c', hc', rfl⟩, he⟩
        exact hc ((List.cons.inj he).1 ▸ hc')
  | seq r r' ihr ihr' =>
    simp only [ends, Lang, List.mem_flatMap]
    constructor
    · rintro ⟨b', ⟨b₁, mid⟩, h₁, h₂⟩
      obtain ⟨u, hu, rfl⟩ := (ihr h.1 b cs mid).mp ⟨b₁, h₁⟩
      obtain ⟨v, hv, rfl⟩ := (ihr' h.2 b₁ mid rest).mp ⟨b', h₂⟩
      exact ⟨u ++ v, ⟨u, v, hu, hv, rfl⟩, by simp⟩
    · rintro ⟨s, ⟨u, v, hu, hv, rfl⟩, rfl⟩
      obtain ⟨b₁, h₁⟩ := (ihr h.1 b _ (v ++ rest)).mpr
        ⟨u, hu, List.append_assoc ..⟩
      obtain ⟨b', h₂⟩ := (ihr' h.2 b₁ _ rest).mpr ⟨v, hv, rfl⟩
      exact ⟨b', (b₁, v ++ rest), h₁, h₂⟩
  | alt r r' ihr ihr' =>
    simp only [ends, Lang, List.mem_append, exists_or, ihr h.1, ihr' h.2, or_and_right]
  | many min r ih =>
    simp only [ends, Lang]
    rw [mem_repeated h.2 (ih h.1) (Nat.le_refl _)]
    constructor
    · rintro ⟨pieces, hm, hp, he⟩
      exact ⟨_, ⟨pieces, hm, hp, rfl⟩, he⟩
    · rintro ⟨s, ⟨pieces, hm, hp, rfl⟩, he⟩
      exact ⟨pieces, hm, hp, he⟩
  | opt r ih =>
    simp only [ends, Lang, List.mem_append, exists_or, ih h, or_and_right, List.mem_singleton,
      Prod.mk.injEq]
    constructor
    · rintro (h | ⟨-, -, rfl⟩)
      · exact .inl h
      · exact .inr ⟨[], rfl, rfl⟩
    · rintro (h | ⟨s, rfl, rfl⟩)
      · exact .inl h
      · exact .inr ⟨_, rfl, rfl⟩
  | boundary _ | notBehind _ | notAhead _ => exact h.elim

/-- **A plain pattern matches exactly the texts of its language.** -/
theorem fullmatch_iff {r : Regex} (h : r.Plain) (text : String) :
    r.fullmatch text = true ↔ r.Lang text.toList := by
  have hends := mem_ends_iff h none text.toList []
  simp only [List.append_nil, exists_eq_right'] at hends
  rw [← hends, fullmatch, List.any_eq_true]
  constructor
  · rintro ⟨⟨b', rest⟩, he, hempty⟩
    obtain rfl : rest = [] := List.isEmpty_iff.mp hempty
    exact ⟨b', he⟩
  · rintro ⟨b', he⟩
    exact ⟨(b', []), he, rfl⟩

end Regex

end Ticketing.Lib
