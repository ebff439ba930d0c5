import Mathlib.Data.List.DropRight
import Mathlib.Data.List.Infix
import Mathlib.Data.Nat.Digits.Defs
import Mathlib.Tactic.IntervalCases
import Mathlib.Tactic.Ring

/-!
# Text as Python handles it

The string operations the services use, over lists of characters.

* `strip` is `str.strip()`: it drops the characters of `isSpace`, the white space of Unicode as
  Python counts it (U+001C to U+001F among them), from both ends. `stripChars p` drops those of
  any `p`.
* `take`, `replaceChar` and `contains` are `s[:n]`, `str.replace` of one character and
  `sub in text`.
* `numeral b w n` is the last `w` digits of `n` in base `b`; `value` reads digits of either case,
  `none` where there are none or another character is among them.

Results:
* `le_length_stripChars_iff`: at least `n` characters are left of a stripped text exactly when it
  reaches over `n` from some character outside `p` to another one (`Spans`).
* `value_numeral`: a number below `b ^ w` is read back from its `w` digits, in a base up to
  sixteen.

Out of scope: digits of other scripts, and any operation on the case of letters.
-/

namespace Ticketing.Lib.Text

/-- The characters `str.strip` removes. -/
def isSpace (c : Char) : Bool :=
  let n := c.toNat
  (9 ≤ n && n ≤ 13) || (28 ≤ n && n ≤ 32) || n == 0x85 || n == 0xA0 || n == 0x1680 ||
    (0x2000 ≤ n && n ≤ 0x200A) || n == 0x2028 || n == 0x2029 || n == 0x202F || n == 0x205F ||
    n == 0x3000

def stripChars (p : Char → Bool) (s : List Char) : List Char := (s.dropWhile p).rdropWhile p

/-- `str.strip()`. -/
def strip (s : String) : String := String.ofList (stripChars isSpace s.toList)

/-- `s[:n]`. -/
def take (n : Nat) (s : String) : String := String.ofList (s.toList.take n)

/-- `str.replace` of one character by another. -/
def replaceChar (a b : Char) (s : String) : String :=
  String.ofList (s.toList.map fun c => if c = a then b else c)

/-- `sub in text`. -/
def contains (text sub : String) : Bool := decide (sub.toList <:+: text.toList)

/-! ## What is left of a stripped text -/

section Strip

variable (p : Char → Bool)

/-- From some character outside `p` to another one, both included, there are at least `n`. -/
def Spans (n : Nat) (s : List Char) : Prop :=
  ∃ i j x y, s[i]? = some x ∧ s[j]? = some y ∧ p x = false ∧ p y = false ∧ i + n ≤ j + 1

/-- Stripping takes characters of `p` from both ends, as many as there are. -/
theorem stripChars_split (s : List Char) :
    ∃ a c, s = a ++ (stripChars p s ++ c) ∧ (∀ x ∈ a, p x = true) ∧ (∀ x ∈ c, p x = true) ∧
      (∀ x, (stripChars p s).head? = some x → p x = false) ∧
      ∀ x, (stripChars p s).getLast? = some x → p x = false := by
  have hright : s.dropWhile p = stripChars p s ++ (s.dropWhile p).rtakeWhile p := by
    rw [stripChars, List.rdropWhile, List.rtakeWhile, ← List.reverse_append,
      List.takeWhile_append_dropWhile, List.reverse_reverse]
  refine ⟨s.takeWhile p, (s.dropWhile p).rtakeWhile p, ?_, fun x hx => List.mem_takeWhile_imp hx,
    fun x hx => List.mem_rtakeWhile_imp hx, fun x hx => ?_, fun x hx => ?_⟩
  · rw [← hright, List.takeWhile_append_dropWhile]
  · have hne : stripChars p s ≠ [] := fun h => by simp [h] at hx
    have hdrop : (s.dropWhile p).head? = some x := by
      rw [hright, List.head?_append, hx]
      rfl
    have := List.head?_dropWhile_not p s
    rw [hdrop] at this
    simpa using this
  · have hne : stripChars p s ≠ [] := fun h => by simp [h] at hx
    have := List.rdropWhile_last_not p (s.dropWhile p) hne
    rw [List.getLast?_eq_some_getLast hne] at hx
    obtain rfl := Option.some.inj hx
    exact Bool.not_eq_true _ ▸ this

/-- **What is left of a stripped text** is as long as the part between its outermost characters
outside `p`. -/
theorem le_length_stripChars_iff {n : Nat} (hn : 0 < n) (s : List Char) :
    n ≤ (stripChars p s).length ↔ Spans p n s := by
  obtain ⟨a, c, hs, ha, hc, hhead, hlast⟩ := stripChars_split p s
  generalize stripChars p s = t at hs hhead hlast ⊢
  subst hs
  constructor
  · intro h
    have hne : t ≠ [] := fun he => by rw [he] at h; simp at h; omega
    have hpos := List.length_pos_iff.mpr hne
    refine ⟨a.length, a.length + (t.length - 1), t.head hne, t.getLast hne, ?_, ?_,
      hhead _ (List.head?_eq_some_head hne), hlast _ (List.getLast?_eq_some_getLast hne), by omega⟩
    · rw [List.getElem?_append_right le_rfl, Nat.sub_self, List.getElem?_append_left hpos,
        ← List.head?_eq_getElem?, List.head?_eq_some_head hne]
    · rw [List.getElem?_append_right (by omega), Nat.add_sub_cancel_left,
        List.getElem?_append_left (by omega), ← List.getLast?_eq_getElem?,
        List.getLast?_eq_some_getLast hne]
  · rintro ⟨i, j, x, y, hx, hy, hpx, hpy, hij⟩
    -- the first of the two is after what is stripped on the left, the second before the right
    have hi : a.length ≤ i := by
      by_contra hlt
      rw [List.getElem?_append_left (by omega)] at hx
      rw [ha x (List.mem_of_getElem? hx)] at hpx
      cases hpx
    have hj : j < a.length + t.length := by
      by_contra hge
      rw [List.getElem?_append_right (by omega), List.getElem?_append_right (by omega)] at hy
      rw [hc y (List.mem_of_getElem? hy)] at hpy
      cases hpy
    omega

theorem length_stripChars_le (s : List Char) : (stripChars p s).length ≤ s.length := by
  obtain ⟨a, c, hs, -⟩ := stripChars_split p s
  have := congrArg List.length hs
  simp only [List.length_append] at this
  omega

end Strip

@[simp] theorem length_strip (s : String) :
    (strip s).length = (stripChars isSpace s.toList).length := by
  simp [strip]

/-! ## Numerals -/

/-- The last `w` digits of `n` in base `b`. -/
def numeral (b : Nat) : Nat → Nat → List Char
  | 0, _ => []
  | w + 1, n => numeral b w (n / b) ++ [Nat.digitChar (n % b)]

/-- The value of one digit, in a base up to sixteen. -/
def digitValue (b : Nat) (c : Char) : Option Nat :=
  let n := c.toNat
  let v := if 48 ≤ n && n ≤ 57 then n - 48
    else if 97 ≤ n && n ≤ 102 then n - 87
    else if 65 ≤ n && n ≤ 70 then n - 55
    else b
  if v < b then some v else none

/-- The number a string of digits stands for after the digits read so far. -/
def valueFrom (b : Nat) : Nat → List Char → Option Nat
  | acc, [] => some acc
  | acc, c :: cs =>
    match digitValue b c with
    | some d => valueFrom b (acc * b + d) cs
    | none => none

/-- The number a string of digits stands for; the empty string is none. -/
def value (b : Nat) (cs : List Char) : Option Nat :=
  if cs.isEmpty then none else valueFrom b 0 cs

@[simp] theorem length_numeral (b w n : Nat) : (numeral b w n).length = w := by
  induction w generalizing n with
  | zero => rfl
  | succ w ih => simp [numeral, ih]

theorem digitValue_digitChar {b d : Nat} (hb : b ≤ 16) (hd : d < b) :
    digitValue b (Nat.digitChar d) = some d := by
  have hd16 : d < 16 := by omega
  interval_cases d <;> simp [digitValue, Nat.digitChar] <;> omega

theorem valueFrom_append (b acc : Nat) (cs ds : List Char) :
    valueFrom b acc (cs ++ ds) = (valueFrom b acc cs).bind fun a => valueFrom b a ds := by
  induction cs generalizing acc with
  | nil => rfl
  | cons c cs ih =>
    simp only [List.cons_append, valueFrom]
    cases digitValue b c with
    | none => rfl
    | some d => exact ih _

theorem valueFrom_numeral {b : Nat} (hb : b ≤ 16) (hpos : 0 < b) (w n acc : Nat) :
    valueFrom b acc (numeral b w n) = some (acc * b ^ w + n % b ^ w) := by
  induction w generalizing n with
  | zero => simp [numeral, valueFrom, Nat.mod_one]
  | succ w ih =>
    have hd := digitValue_digitChar hb (Nat.mod_lt n hpos)
    simp only [numeral, valueFrom_append, ih, Option.bind_some, valueFrom, hd]
    congr 1
    have hn : n % b ^ (w + 1) = b * (n / b % b ^ w) + n % b := by
      rw [pow_succ', Nat.mod_mul, Nat.add_comm]
    rw [hn]
    ring

theorem value_numeral {b w n : Nat} (hb : b ≤ 16) (hpos : 0 < b) (hn : n < b ^ (w + 1)) :
    value b (numeral b (w + 1) n) = some n := by
  have hne : (numeral b (w + 1) n).isEmpty = false := by simp [numeral]
  rw [value, hne, if_neg Bool.false_ne_true, valueFrom_numeral hb hpos, Nat.mod_eq_of_lt hn]
  simp

theorem digitChar_mem {d : Nat} (hd : d < 16) :
    Nat.digitChar d ∈ "0123456789abcdef".toList := by
  interval_cases d <;> decide

/-- A numeral in a base up to sixteen is made of hexadecimal digits. -/
theorem mem_numeral {b w n : Nat} (hb : b ≤ 16) (hpos : 0 < b) {c : Char}
    (hc : c ∈ numeral b w n) : c ∈ "0123456789abcdef".toList := by
  induction w generalizing n with
  | zero => cases hc
  | succ w ih =>
    rcases List.mem_append.mp hc with hc | hc
    · exact ih hc
    · rw [List.mem_singleton.mp hc]
      exact digitChar_mem (lt_of_lt_of_le (Nat.mod_lt n hpos) hb)

end Ticketing.Lib.Text
