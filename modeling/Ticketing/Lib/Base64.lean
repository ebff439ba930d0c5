import Mathlib.Data.List.DropRight

/-!
# Base 64 as in RFC 4648

* `urlsafeEncode` is `base64.urlsafe_b64encode`: the bytes are cut into `sextets`, each written as
  a `digit` of the alphabet with `-` and `_`, and padded to a multiple of four.
* `decode` is `base64.b64decode(…, altchars=b"-_", validate=True)`: the characters of the standard
  alphabet are read as well. `none` is its `binascii.Error`, for any other character and for every
  padding but the right one. The bits that a last digit has too many of are dropped.

Results:
* `rdropWhile_urlsafeEncode`: without its padding, an encoded text is the digits alone.
* `decode_padded`: what is encoded, stripped of its padding and padded again, decodes to itself.
  So the encoding is injective, with the padding or without.
-/

namespace Ticketing.Lib.Base64

abbrev Bytes := List UInt8

/-- The characters of the URL-safe alphabet. -/
def alphabet : List Char :=
  "ABCDEFGHIJKLMNOPQRSTUVWXYZabcdefghijklmnopqrstuvwxyz0123456789-_".toList

def digit (n : Nat) : Char := alphabet.getD n 'A'

/-- The six bits a character stands for. -/
def value (c : Char) : Option Nat :=
  let n := c.toNat
  if 65 ≤ n ∧ n ≤ 90 then some (n - 65)
  else if 97 ≤ n ∧ n ≤ 122 then some (n - 71)
  else if 48 ≤ n ∧ n ≤ 57 then some (n + 4)
  else if c = '+' ∨ c = '-' then some 62
  else if c = '/' ∨ c = '_' then some 63
  else none

/-- The groups of six bits of a string of bytes, the last one filled up with zeros. -/
def sextets : Bytes → List Nat
  | a :: b :: c :: rest =>
    a.toNat / 4 :: (a.toNat % 4 * 16 + b.toNat / 16) :: (b.toNat % 16 * 4 + c.toNat / 64) ::
      c.toNat % 64 :: sextets rest
  | [a, b] => [a.toNat / 4, a.toNat % 4 * 16 + b.toNat / 16, b.toNat % 16 * 4]
  | [a] => [a.toNat / 4, a.toNat % 4 * 16]
  | [] => []

/-- The bytes of groups of six bits; bits that fill no byte are dropped. -/
def bytes : List Nat → Bytes
  | a :: b :: c :: d :: rest =>
    UInt8.ofNat (a * 4 + b / 16) :: UInt8.ofNat (b % 16 * 16 + c / 4) ::
      UInt8.ofNat (c % 4 * 64 + d) :: bytes rest
  | [a, b, c] => [UInt8.ofNat (a * 4 + b / 16), UInt8.ofNat (b % 16 * 16 + c / 4)]
  | [a, b] => [UInt8.ofNat (a * 4 + b / 16)]
  | _ => []

/-- How many padding characters follow `n` others. -/
def padding (n : Nat) : Nat := (4 - n % 4) % 4

/-- `base64.urlsafe_b64encode(data)`. -/
def urlsafeEncode (data : Bytes) : List Char :=
  let digits := (sextets data).map digit
  digits ++ List.replicate (padding digits.length) '='

/-- `base64.b64decode(text, altchars=b"-_", validate=True)`; `none` is a `ValueError`. -/
def decode (text : List Char) : Option Bytes :=
  let digits := text.takeWhile fun c => (value c).isSome
  if digits.length % 4 ≠ 1 ∧
      text.drop digits.length = List.replicate (padding digits.length) '=' then
    some (bytes (digits.filterMap value))
  else none

/-! ## What is encoded decodes -/

theorem value_digit {n : Nat} (h : n < 64) : value (digit n) = some n := by
  have hall : ∀ k : Fin 64, value (digit k) = some k.val := by decide +kernel
  exact hall ⟨n, h⟩

/-- A digit may stand in a URL as it is. -/
theorem digit_urlsafe {n : Nat} (h : n < 64) :
    (digit n).isAlphanum = true ∨ digit n = '-' ∨ digit n = '_' := by
  have hall : ∀ m : Fin 64, (digit m).isAlphanum = true ∨ digit m = '-' ∨ digit m = '_' := by
    decide +kernel
  exact hall ⟨n, h⟩

theorem sextets_lt (data : Bytes) : ∀ n ∈ sextets data, n < 64 := by
  fun_induction sextets data with
  | case1 a b c rest ih =>
    have := a.toNat_lt; have := b.toNat_lt; have := c.toNat_lt
    simp only [List.forall_mem_cons]
    exact ⟨by omega, by omega, by omega, by omega, ih⟩
  | case2 a b =>
    have := a.toNat_lt; have := b.toNat_lt
    simp only [List.forall_mem_cons]
    exact ⟨by omega, by omega, by omega, nofun⟩
  | case3 a =>
    have := a.toNat_lt
    simp only [List.forall_mem_cons]
    exact ⟨by omega, by omega, nofun⟩
  | case4 => nofun

theorem length_sextets (data : Bytes) : (sextets data).length % 4 ≠ 1 := by
  fun_induction sextets data with
  | case1 a b c rest ih =>
    simp only [List.length_cons]
    omega
  | case2 | case3 | case4 => simp

theorem bytes_sextets (data : Bytes) : bytes (sextets data) = data := by
  have join (b : UInt8) {n : Nat} (h : n = b.toNat) : UInt8.ofNat n = b := by
    rw [h, UInt8.ofNat_toNat]
  fun_induction sextets data with
  | case1 a b c rest ih =>
    have := a.toNat_lt; have := b.toNat_lt; have := c.toNat_lt
    rw [bytes, ih, join a (by omega), join b (by omega), join c (by omega)]
  | case2 a b =>
    have := a.toNat_lt; have := b.toNat_lt
    rw [bytes, join a (by omega), join b (by omega)]
  | case3 a =>
    have := a.toNat_lt
    rw [bytes, join a (by omega)]
  | case4 => rfl

theorem filterMap_digit {ns : List Nat} (h : ∀ n ∈ ns, n < 64) :
    (ns.map digit).filterMap value = ns := by
  induction ns with
  | nil => rfl
  | cons n ns ih =>
    rw [List.forall_mem_cons] at h
    rw [List.map_cons, List.filterMap_cons_some (value_digit h.1), ih h.2]

/-- The digits are what is left when the padding is stripped. -/
theorem rdropWhile_urlsafeEncode (data : Bytes) :
    (urlsafeEncode data).rdropWhile (· = '=') = (sextets data).map digit := by
  have hdigits : ((sextets data).map digit).rdropWhile (· = '=') = (sextets data).map digit := by
    rw [List.rdropWhile_eq_self_iff]
    intro hne heq
    obtain ⟨n, hn, hlast⟩ := List.mem_map.mp (List.getLast_mem hne)
    have hvalue := value_digit (sextets_lt data n hn)
    rw [hlast, of_decide_eq_true heq] at hvalue
    cases hvalue
  have hpad (n : Nat) : ((sextets data).map digit ++ List.replicate n '=').rdropWhile (· = '=') =
      (sextets data).map digit := by
    induction n with
    | zero => rw [List.replicate_zero, List.append_nil, hdigits]
    | succ n ih =>
      rw [List.replicate_succ', ← List.append_assoc,
        List.rdropWhile_concat_pos _ _ _ (by decide), ih]
  exact hpad _

/-- **What is encoded decodes**, the padding stripped and put back. -/
theorem decode_padded (data : Bytes) :
    decode ((sextets data).map digit ++
      List.replicate (padding (sextets data).length) '=') = some data := by
  have hdigits : ∀ c ∈ (sextets data).map digit, (value c).isSome = true := by
    intro c hc
    obtain ⟨n, hn, rfl⟩ := List.mem_map.mp hc
    rw [value_digit (sextets_lt data n hn)]
    rfl
  have hpad : (List.replicate (padding (sextets data).length) '=').takeWhile
      (fun c => (value c).isSome) = [] := by
    cases padding (sextets data).length with
    | zero => rfl
    | succ k => rfl
  have htake : ((sextets data).map digit ++ List.replicate (padding (sextets data).length)
      '=').takeWhile (fun c => (value c).isSome) = (sextets data).map digit := by
    rw [List.takeWhile_append_of_pos hdigits, hpad, List.append_nil]
  rw [decode, htake]
  rw [if_pos, filterMap_digit (sextets_lt data), bytes_sextets]
  refine ⟨by simpa using length_sextets data, ?_⟩
  rw [List.drop_left, List.length_map]

end Ticketing.Lib.Base64
