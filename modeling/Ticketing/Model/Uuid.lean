import Ticketing.Lib.Text
import Mathlib.Data.Fin.Basic

/-!
# UUIDs and their text forms

A UUID is its 128 bits.

* `str` is `str(uuid)`: 8-4-4-4-12 lower-case digits. `hex` is `uuid.hex`: the digits alone.
* `parse` is `UUID(text)`; `none` is its `ValueError`. It drops `urn:`, `uuid:`, outer braces and
  every hyphen, wants 32 characters and reads them with `int(text, 16)` (`int16`), which also
  takes a sign, a `0x` and underscores between digits.

Results:
* `parse_str`: a UUID is read back from its text.
* `str_injective`: different UUIDs have different texts.

Out of scope: digits of other scripts, which `int` reads as well. `int16` is `int` on ASCII texts.
-/

namespace Ticketing

open Lib.Text

abbrev UUID := Fin (2 ^ 128)

instance UUID.neZero : NeZero (2 ^ 128) := ⟨Nat.ne_of_gt (Nat.two_pow_pos 128)⟩

instance UUID.lawfulBEq : LawfulBEq UUID := inferInstance

namespace UUID

/-- The 32 digits of `u`. -/
def digits (u : UUID) : List Char := numeral 16 32 u.val

/-- `u.hex`. -/
def hex (u : UUID) : String := String.ofList u.digits

/-- The digits in their five groups. -/
def groups (d : List Char) : List Char :=
  d.take 8 ++ '-' :: ((d.drop 8).take 4 ++ '-' :: ((d.drop 12).take 4 ++
    '-' :: ((d.drop 16).take 4 ++ '-' :: d.drop 20)))

/-- `str(u)`. -/
def str (u : UUID) : String := String.ofList (groups u.digits)

/-- `text.replace(sub, "")`. -/
def removeAll (sub : List Char) : Nat → List Char → List Char
  | 0, cs => cs
  | fuel + 1, cs =>
    match cs with
    | [] => []
    | c :: rest =>
      if sub.isPrefixOf (c :: rest) then removeAll sub fuel ((c :: rest).drop sub.length)
      else c :: removeAll sub fuel rest

/-- The digits of an integer literal; an underscore may stand between two digits. -/
def literal (b : Nat) : Nat → Bool → List Char → Option Nat
  | acc, digit, [] => if digit then some acc else none
  | acc, digit, c :: cs =>
    if c = '_' then if digit then literal b acc false cs else none
    else match digitValue b c with
      | some d => literal b (acc * b + d) true cs
      | none => none

/-- The sign of an integer literal. -/
def sign : List Char → Bool × List Char
  | '-' :: rest => (true, rest)
  | '+' :: rest => (false, rest)
  | cs => (false, cs)

/-- An integer literal in base 16 without its `0x`. -/
def dropRadix : List Char → List Char
  | '0' :: 'x' :: '_' :: rest => rest
  | '0' :: 'X' :: '_' :: rest => rest
  | '0' :: 'x' :: rest => rest
  | '0' :: 'X' :: rest => rest
  | cs => cs

/-- `int(text, 16)`. -/
def int16 (cs : List Char) : Option Int :=
  let (negative, cs) := sign (stripChars isSpace cs)
  match literal 16 0 false (dropRadix cs) with
  | some n => some (if negative then -(n : Int) else n)
  | none => none

/-- `UUID(text)`. -/
def parse (text : String) : Option UUID :=
  let cs := text.toList
  let cs := removeAll "urn:".toList cs.length cs
  let cs := removeAll "uuid:".toList cs.length cs
  let cs := (stripChars (fun c => c = '{' || c = '}') cs).filter (· ≠ '-')
  if cs.length = 32 then
    match int16 cs with
    | some n => if h : 0 ≤ n ∧ n < 2 ^ 128 then some ⟨n.toNat, by omega⟩ else none
    | none => none
  else none

theorem digits_injective : Function.Injective digits := by
  intro u v h
  have hu := value_numeral (b := 16) (w := 31) (n := u.val) (by omega) (by omega)
    (by have := u.isLt; omega)
  have hv := value_numeral (b := 16) (w := 31) (n := v.val) (by omega) (by omega)
    (by have := v.isLt; omega)
  rw [show numeral 16 (31 + 1) u.val = numeral 16 (31 + 1) v.val from h, hv] at hu
  exact Fin.ext (Option.some.inj hu).symm

@[simp] theorem length_digits (u : UUID) : u.digits.length = 32 := length_numeral ..

theorem mem_digits {u : UUID} {c : Char} (h : c ∈ u.digits) : c ∈ "0123456789abcdef".toList :=
  mem_numeral (by omega) (by omega) h

/-- Taking the hyphens out of the five groups gives the digits back. -/
theorem filter_groups {d : List Char} (h : '-' ∉ d) : (groups d).filter (· ≠ '-') = d := by
  have hf : ∀ l, l ⊆ d → l.filter (· ≠ '-') = l := fun l hl =>
    List.filter_eq_self.mpr fun c hc => by
      have : c ≠ '-' := fun he => h (he ▸ hl hc)
      simpa using this
  have h1 := hf (d.take 8) (List.take_subset ..)
  have h2 := hf ((d.drop 8).take 4) (fun _ hc => List.mem_of_mem_drop (List.mem_of_mem_take hc))
  have h3 := hf ((d.drop 12).take 4) (fun _ hc => List.mem_of_mem_drop (List.mem_of_mem_take hc))
  have h4 := hf ((d.drop 16).take 4) (fun _ hc => List.mem_of_mem_drop (List.mem_of_mem_take hc))
  have h5 := hf (d.drop 20) (List.drop_subset ..)
  have hd : ∀ l : List Char, ('-' :: l).filter (· ≠ '-') = l.filter (· ≠ '-') := fun l => by simp
  simp only [groups, List.filter_append, hd, h1, h2, h3, h4, h5]
  rw [show d.drop 20 = (d.drop 16).drop 4 by rw [List.drop_drop], List.take_append_drop,
    show d.drop 16 = (d.drop 12).drop 4 by rw [List.drop_drop], List.take_append_drop,
    show d.drop 12 = (d.drop 8).drop 4 by rw [List.drop_drop], List.take_append_drop,
    List.take_append_drop]

theorem hyphen_not_mem (u : UUID) : '-' ∉ u.digits := fun h =>
  absurd (mem_digits h) (by decide)

theorem str_injective : Function.Injective str := by
  intro u v h
  have h := String.ofList_injective h
  have := congrArg (List.filter (· ≠ '-')) h
  rw [filter_groups (hyphen_not_mem u), filter_groups (hyphen_not_mem v)] at this
  exact digits_injective this

theorem length_str (u : UUID) : u.str.toList.length = 36 := by
  have h : u.digits.length = 32 := length_digits u
  simp [str, groups, List.length_append, List.length_take, List.length_drop, h]

theorem mem_groups {d : List Char} {c : Char} (h : c ∈ groups d) : c = '-' ∨ c ∈ d := by
  simp only [groups, List.mem_append, List.mem_cons] at h
  rcases h with h | h | h | h | h | h | h | h | h <;>
    first
      | exact .inl h
      | exact .inr (List.mem_of_mem_take h)
      | exact .inr (List.mem_of_mem_drop h)
      | exact .inr (List.mem_of_mem_drop (List.mem_of_mem_take h))

theorem removeAll_of_not_mem {sub : List Char} (hs : ':' ∈ sub) (fuel : Nat) {cs : List Char}
    (h : ':' ∉ cs) : removeAll sub fuel cs = cs := by
  induction fuel generalizing cs with
  | zero => rfl
  | succ fuel ih =>
    cases cs with
    | nil => rfl
    | cons c rest =>
      have hp : sub.isPrefixOf (c :: rest) = false := by
        rw [Bool.eq_false_iff]
        intro hp
        exact h ((List.isPrefixOf_iff_prefix.mp hp).subset hs)
      rw [removeAll, hp, if_neg Bool.false_ne_true,
        ih fun hm => h (List.mem_cons_of_mem _ hm)]

theorem stripChars_eq {p : Char → Bool} {cs : List Char} (h : ∀ c ∈ cs, p c = false) :
    stripChars p cs = cs := by
  have h1 : cs.dropWhile p = cs := by
    cases cs with
    | nil => rfl
    | cons c rest => simp [h c List.mem_cons_self]
  rw [stripChars, h1, List.rdropWhile_eq_self_iff]
  intro hne
  simp [h _ (List.getLast_mem hne)]

theorem literal_digits {cs : List Char} (h : '_' ∉ cs) (acc : Nat) (digit : Bool) :
    literal 16 acc digit cs =
      if cs = [] then (if digit then some acc else none) else valueFrom 16 acc cs := by
  induction cs generalizing acc digit with
  | nil => rfl
  | cons c cs ih =>
    simp only [List.mem_cons, not_or] at h
    rw [literal, if_neg (Ne.symm h.1), if_neg (List.cons_ne_nil c cs), valueFrom]
    cases digitValue 16 c with
    | none => rfl
    | some d =>
      simp only [ih h.2]
      split
      · rename_i hnil
        rw [hnil]
        rfl
      · rfl

theorem sign_eq {cs : List Char} (h : '-' ∉ cs ∧ '+' ∉ cs) : sign cs = (false, cs) := by
  unfold sign
  split
  · exact absurd List.mem_cons_self h.1
  · exact absurd List.mem_cons_self h.2
  · rfl

theorem dropRadix_eq {cs : List Char} (h : 'x' ∉ cs ∧ 'X' ∉ cs) : dropRadix cs = cs := by
  unfold dropRadix
  split
  · exact absurd (by simp) h.1
  · exact absurd (by simp) h.2
  · exact absurd (by simp) h.1
  · exact absurd (by simp) h.2
  · rfl

theorem int16_digits (u : UUID) : int16 u.digits = some (u.val : Int) := by
  have hno : ∀ c, c ∉ "0123456789abcdef".toList → c ∉ u.digits := fun c h hc => h (mem_digits hc)
  have hns : ∀ c ∈ "0123456789abcdef".toList, isSpace c = false := fun c hc => by
    simpa using List.all_eq_true.mp (show _ = true by decide :
      "0123456789abcdef".toList.all (!isSpace ·) = true) c hc
  have hstrip : stripChars isSpace u.digits = u.digits :=
    stripChars_eq fun c hc => hns c (mem_digits hc)
  have hne : u.digits ≠ [] := fun h => by simpa [h] using length_digits u
  have hlit : literal 16 0 false u.digits = some u.val := by
    have := u.isLt
    rw [literal_digits (hno '_' (by decide)), if_neg hne, digits,
      valueFrom_numeral (by omega) (by omega), Nat.mod_eq_of_lt (by omega)]
    simp
  rw [int16, hstrip, sign_eq ⟨hno '-' (by decide), hno '+' (by decide)⟩]
  simp only [dropRadix_eq ⟨hno 'x' (by decide), hno 'X' (by decide)⟩, hlit]
  rfl

/-- **`UUID(str(u)) = u`.** -/
theorem parse_str (u : UUID) : parse u.str = some u := by
  have hmem : ∀ c ∈ groups u.digits, c ∈ "-0123456789abcdef".toList := by
    intro c hc
    rcases mem_groups hc with rfl | hc
    · decide
    · exact List.mem_cons_of_mem _ (mem_digits hc)
  have hcolon : ':' ∉ groups u.digits := fun h => absurd (hmem _ h) (by decide)
  have hbrace : ∀ c ∈ "-0123456789abcdef".toList, (c = '{' || c = '}') = false := fun c hc => by
    have := List.all_eq_true.mp (show _ = true by decide :
      "-0123456789abcdef".toList.all (fun c => !(c = '{' || c = '}')) = true) c hc
    simpa using this
  have hstrip : stripChars (fun c => c = '{' || c = '}') (groups u.digits) = groups u.digits :=
    stripChars_eq fun c hc => hbrace c (hmem c hc)
  unfold parse str
  simp only [String.toList_ofList, removeAll_of_not_mem (show ':' ∈ "urn:".toList by decide)
    _ hcolon,
    removeAll_of_not_mem (show ':' ∈ "uuid:".toList by decide) _ hcolon, hstrip,
    filter_groups (hyphen_not_mem u), length_digits, if_true, int16_digits]
  have hlt : (0 : Int) ≤ u.val ∧ (u.val : Int) < 2 ^ 128 := ⟨by omega, by have := u.isLt; omega⟩
  rw [dif_pos hlt]
  rfl

end UUID

end Ticketing
