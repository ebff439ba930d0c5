import Mathlib.Tactic.Common

/-!
# UTF-8, all at once and piece by piece

* `step` reads one byte after those of an unfinished character.
* `decode` is `codecs.getincrementaldecoder("utf-8")().decode(piece)`: it refuses the first byte
  that no text can continue with, and keeps the bytes of an unfinished character for the next
  call. `none` is a `UnicodeDecodeError`.
* With `lone` a surrogate on its own is read as well (`errors="surrogatepass"`); it is read as
  U+FFFD, since a `Char` is no surrogate.

Results:
* `decode_append`: how the bytes are cut into pieces makes no difference.
* `decode_encode`: what is encoded decodes to itself, with nothing left over.
* `decode_eq_some_iff`: the decoder ends between two characters exactly on the encodings of texts.
-/

namespace Ticketing.Lib.Utf8

/-- The bytes of a text. -/
def encode (cs : List Char) : List UInt8 := cs.flatMap String.utf8EncodeChar

/-- A code point as a character; Python's lone surrogates are replaced. -/
def character (n : Nat) : Char := if n.isValidChar then Char.ofNat n else '\uFFFD'

inductive Scan
  | char (c : Char)
  | unfinished
  | invalid
  deriving DecidableEq, Repr

def tail (b : Nat) : Bool := 0x80 ≤ b && b ≤ 0xBF

/-- The second bytes that may follow a first byte of three or four. -/
def second (lone : Bool) (a b : Nat) : Bool :=
  tail b && (a ≠ 0xE0 || 0xA0 ≤ b) && (a ≠ 0xED || b ≤ 0x9F || lone) && (a ≠ 0xF0 || 0x90 ≤ b) &&
    (a ≠ 0xF4 || b ≤ 0x8F)

/-- What the bytes at the start of a character are. -/
def scan (lone : Bool) : List Nat → Scan
  | [a] =>
    if a ≤ 0x7F then .char (character a)
    else if 0xC2 ≤ a && a ≤ 0xF4 then .unfinished
    else .invalid
  | [a, b] =>
    if 0xC2 ≤ a && a ≤ 0xDF && tail b then .char (character (a % 32 * 64 + b % 64))
    else if 0xE0 ≤ a && a ≤ 0xF4 && second lone a b then .unfinished
    else .invalid
  | [a, b, c] =>
    if 0xE0 ≤ a && a ≤ 0xEF && second lone a b && tail c then
      .char (character (a % 16 * 4096 + b % 64 * 64 + c % 64))
    else if 0xF0 ≤ a && a ≤ 0xF4 && second lone a b && tail c then .unfinished
    else .invalid
  | [a, b, c, d] =>
    if 0xF0 ≤ a && a ≤ 0xF4 && second lone a b && tail c && tail d then
      .char (character (a % 8 * 262144 + b % 64 * 4096 + c % 64 * 64 + d % 64))
    else .invalid
  | _ => .invalid

/-- One more byte after those of an unfinished character: the characters it completes, and what is
then unfinished. -/
def step (lone : Bool) (buffer : List UInt8) (b : UInt8) : Option (List Char × List UInt8) :=
  match scan lone ((buffer ++ [b]).map UInt8.toNat) with
  | .char c => some ([c], [])
  | .unfinished => some ([], buffer ++ [b])
  | .invalid => none

/-- `decoder.decode(data)`: the text so far, and what stays in the decoder's buffer. -/
def decode (lone : Bool) : List UInt8 → List UInt8 → Option (List Char × List UInt8)
  | buffer, [] => some ([], buffer)
  | buffer, b :: data =>
    (step lone buffer b).bind fun (cs, buffer) =>
      (decode lone buffer data).map fun (ds, buffer) => (cs ++ ds, buffer)

/-- `data.decode("utf-8", …)`. -/
def decodeAll (lone : Bool) (data : List UInt8) : Option (List Char) :=
  match decode lone [] data with
  | some (cs, []) => some cs
  | _ => none

/-! ## In pieces -/

/-- **The pieces do not matter**: what is decoded after `data` is decoded from what `data` left. -/
theorem decode_append (lone : Bool) (buffer data more : List UInt8) :
    decode lone buffer (data ++ more) = (decode lone buffer data).bind fun (cs, buffer) =>
      (decode lone buffer more).map fun (ds, buffer) => (cs ++ ds, buffer) := by
  induction data generalizing buffer with
  | nil =>
    simp only [List.nil_append, decode, Option.bind_some]
    cases decode lone buffer more <;> rfl
  | cons b data ih =>
    simp only [List.cons_append, decode]
    cases step lone buffer b with
    | none => rfl
    | some p =>
      simp only [Option.bind_some, ih]
      cases decode lone p.2 data with
      | none => rfl
      | some q =>
        simp only [Option.bind_some, Option.map_some]
        cases decode lone q.2 more <;> simp [List.append_assoc]

/-! ## What a strict decoder reads -/

theorem character_val (c : Char) : character c.val.toNat = c := by
  rw [character, if_pos c.valid]
  exact Char.ofNat_toNat c

theorem val_character {n : Nat} (h : n.isValidChar) : (character n).val.toNat = n := by
  rw [character, if_pos h, Char.ofNat, dif_pos h]
  rfl

/-- A character's own bytes are read as that character. -/
theorem scan_encodeChar (c : Char) :
    scan false ((String.utf8EncodeChar c).map UInt8.toNat) = .char c := by
  have hv : c.val.toNat < 0xD800 ∨ 0xDFFF < c.val.toNat ∧ c.val.toNat < 0x110000 := c.valid
  have hc := character_val c
  rw [String.utf8EncodeChar]
  generalize c.val.toNat = n at hv hc
  have byte {k : Nat} (h : k < 256) : (UInt8.ofNat k).toNat = k := UInt8.toNat_ofNat_of_lt' h
  split_ifs with h1 h2 h3
  · have h1 : n ≤ 127 := h1
    rw [List.map_singleton, byte (by omega), scan, if_pos h1, hc]
  · have h1 : ¬ n ≤ 127 := h1
    have h2 : n ≤ 2047 := h2
    simp only [List.map_cons, List.map_nil, scan]
    rw [byte (by omega), byte (by omega), if_pos]
    · rw [← hc]
      congr 2
      omega
    · simp only [tail, Bool.and_eq_true, decide_eq_true_eq]
      omega
  · have h2 : ¬ n ≤ 2047 := h2
    have h3 : n ≤ 65535 := h3
    simp only [List.map_cons, List.map_nil, scan]
    rw [byte (by omega), byte (by omega), byte (by omega), if_pos]
    · rw [← hc]
      congr 2
      omega
    · simp only [second, tail, Bool.and_eq_true, Bool.or_eq_true, decide_eq_true_eq,
        Bool.false_eq_true, or_false]
      omega
  · have h3 : ¬ n ≤ 65535 := h3
    simp only [List.map_cons, List.map_nil, scan]
    rw [byte (by omega), byte (by omega), byte (by omega), byte (by omega), if_pos]
    · rw [← hc]
      congr 2
      omega
    · simp only [second, tail, Bool.and_eq_true, Bool.or_eq_true, decide_eq_true_eq,
        Bool.false_eq_true, or_false]
      omega

/-- A character is read off exactly its own bytes. -/
theorem scan_eq_char {bs : List UInt8} {c : Char}
    (h : scan false (bs.map UInt8.toNat) = .char c) : String.utf8EncodeChar c = bs := by
  have byte {k : Nat} {a : UInt8} (h : k = a.toNat) : UInt8.ofNat k = a := by
    rw [h, UInt8.ofNat_toNat]
  match bs with
  | [] => cases h
  | [a] =>
    simp only [List.map_cons, List.map_nil, scan] at h
    split_ifs at h with h1
    obtain rfl := Scan.char.inj h
    rw [String.utf8EncodeChar, val_character (.inl (by omega))]
    simp only [h1, if_true, UInt8.ofNat_toNat]
  | [a, b] =>
    simp only [List.map_cons, List.map_nil, scan] at h
    split_ifs at h with h1
    obtain rfl := Scan.char.inj h
    simp only [tail, Bool.and_eq_true, decide_eq_true_eq] at h1
    rw [String.utf8EncodeChar, val_character (.inl (by omega))]
    rw [if_neg (by omega), if_pos (by omega)]
    rw [byte (a := a) (by omega), byte (a := b) (by omega)]
  | [a, b, c] =>
    simp only [List.map_cons, List.map_nil, scan] at h
    split_ifs at h with h1
    obtain rfl := Scan.char.inj h
    simp only [second, tail, Bool.and_eq_true, Bool.or_eq_true, decide_eq_true_eq,
      Bool.false_eq_true, or_false] at h1
    have hv : Nat.isValidChar (a.toNat % 16 * 4096 + b.toNat % 64 * 64 + c.toNat % 64) := by
      unfold Nat.isValidChar
      omega
    rw [String.utf8EncodeChar, val_character hv]
    rw [if_neg (by omega), if_neg (by omega), if_pos (by omega)]
    rw [byte (a := a) (by omega), byte (a := b) (by omega), byte (a := c) (by omega)]
  | [a, b, c, d] =>
    simp only [List.map_cons, List.map_nil, scan] at h
    split_ifs at h with h1
    obtain rfl := Scan.char.inj h
    simp only [second, tail, Bool.and_eq_true, Bool.or_eq_true, decide_eq_true_eq,
      Bool.false_eq_true, or_false] at h1
    have hv : Nat.isValidChar (a.toNat % 8 * 262144 + b.toNat % 64 * 4096 +
        c.toNat % 64 * 64 + d.toNat % 64) := by
      unfold Nat.isValidChar
      omega
    rw [String.utf8EncodeChar, val_character hv]
    rw [if_neg (by omega), if_neg (by omega), if_neg (by omega)]
    rw [byte (a := a) (by omega), byte (a := b) (by omega), byte (a := c) (by omega),
      byte (a := d) (by omega)]
  | _ :: _ :: _ :: _ :: _ :: _ => cases h

/-- The beginning of a character that is not over is unfinished. -/
theorem unfinished_of_scan {lone : Bool} {bs : List Nat} {b : Nat} (hne : bs ≠ [])
    (h : scan lone (bs ++ [b]) ≠ .invalid) : scan lone bs = .unfinished := by
  match bs, hne with
  | [a₁], _ =>
    simp only [List.cons_append, List.nil_append, scan] at h ⊢
    split_ifs at h with h1 h2
    all_goals simp only [second, tail, Bool.and_eq_true, decide_eq_true_eq] at *
    · rw [if_neg (by omega), if_pos (by omega)]
    · rw [if_neg (by omega), if_pos (by omega)]
    · exact absurd rfl h
  | [a₁, a₂], _ =>
    simp only [List.cons_append, List.nil_append, scan] at h ⊢
    split_ifs at h with h1 h2
    all_goals simp only [Bool.and_eq_true, decide_eq_true_eq] at *
    · rw [if_neg (by omega), if_pos ⟨⟨h1.1.1.1, by omega⟩, h1.1.2⟩]
    · rw [if_neg (by omega), if_pos ⟨⟨by omega, h2.1.1.2⟩, h2.1.2⟩]
    · exact absurd rfl h
  | [a₁, a₂, a₃], _ =>
    simp only [List.cons_append, List.nil_append, scan] at h ⊢
    split_ifs at h with h1
    all_goals simp only [Bool.and_eq_true, decide_eq_true_eq] at *
    · rw [if_neg (by omega), if_pos h1.1]
    · exact absurd rfl h
  | _ :: _ :: _ :: _ :: rest, _ =>
    refine absurd ?_ h
    cases rest <;> rfl

theorem unfinished_of_scan_append {lone : Bool} {bs rest : List Nat} (hne : bs ≠ [])
    (hrest : rest ≠ []) (h : scan lone (bs ++ rest) ≠ .invalid) : scan lone bs = .unfinished := by
  induction rest generalizing bs with
  | nil => exact absurd rfl hrest
  | cons b rest ih =>
    cases rest with
    | nil => exact unfinished_of_scan hne h
    | cons b' rest =>
      have := @ih (bs ++ [b]) (by simp) (by simp) (by simpa [List.append_assoc] using h)
      exact unfinished_of_scan hne (by rw [this]; nofun)

/-- The rest of a character's bytes completes it. -/
theorem decode_rest {lone : Bool} {c : Char} {buffer rest : List UInt8} (hne : rest ≠ [])
    (h : scan lone ((buffer ++ rest).map UInt8.toNat) = .char c) :
    decode lone buffer rest = some ([c], []) := by
  induction rest generalizing buffer with
  | nil => exact absurd rfl hne
  | cons b rest ih =>
    cases rest with
    | nil =>
      rw [decode, step, h]
      rfl
    | cons b' rest =>
      have hun : scan lone ((buffer ++ [b]).map UInt8.toNat) = .unfinished :=
        @unfinished_of_scan_append lone _ ((b' :: rest).map UInt8.toNat) (by simp) (by simp)
          (by
            rw [← List.map_append, List.append_assoc, List.singleton_append, h]
            nofun)
      rw [decode, step, hun]
      simp only [Option.bind_some]
      rw [ih (by simp) (by simpa [List.append_assoc] using h)]
      rfl

/-- What a strict decoder reads, one that lets lone surrogates through reads too. -/
theorem scan_lone {bs : List Nat} {c : Char} (h : scan false bs = .char c) (lone : Bool) :
    scan lone bs = .char c := by
  have hsecond {a b : Nat} (h : second false a b = true) : second lone a b = true := by
    simp only [second, Bool.and_eq_true, Bool.or_eq_true, decide_eq_true_eq, Bool.false_eq_true,
      or_false] at h ⊢
    exact ⟨⟨⟨h.1.1.1, .inl h.1.1.2⟩, h.1.2⟩, h.2⟩
  match bs with
  | [] => exact h
  | [a] => exact h
  | [a, b] =>
    simp only [scan] at h ⊢
    split_ifs at h with h2
    rwa [if_pos h2]
  | [a, b, d] =>
    simp only [scan] at h ⊢
    split_ifs at h with h3
    simp only [Bool.and_eq_true] at h3
    rwa [if_pos (by simp only [Bool.and_eq_true]; exact ⟨⟨h3.1.1, hsecond h3.1.2⟩, h3.2⟩)]
  | [a, b, d, e] =>
    simp only [scan] at h ⊢
    split_ifs at h with h4
    simp only [Bool.and_eq_true] at h4
    rwa [if_pos (by
      simp only [Bool.and_eq_true]
      exact ⟨⟨⟨h4.1.1.1, hsecond h4.1.1.2⟩, h4.1.2⟩, h4.2⟩)]
  | _ :: _ :: _ :: _ :: _ :: _ => cases h

theorem decode_encode (lone : Bool) (cs : List Char) :
    decode lone [] (encode cs) = some (cs, []) := by
  induction cs with
  | nil => rfl
  | cons c cs ih =>
    have hne : String.utf8EncodeChar c ≠ [] := by
      intro h
      have := scan_encodeChar c
      rw [h] at this
      cases this
    have hc : decode lone [] (String.utf8EncodeChar c) = some ([c], []) :=
      decode_rest hne (scan_lone (scan_encodeChar c) lone)
    rw [show encode (c :: cs) = String.utf8EncodeChar c ++ encode cs from rfl, decode_append, hc]
    simp [ih]

theorem decodeAll_encode (lone : Bool) (cs : List Char) : decodeAll lone (encode cs) = some cs := by
  rw [decodeAll, decode_encode]

/-- What is decoded and what is left in the buffer are the bytes that came in. -/
theorem encode_of_decode {buffer data rest : List UInt8} {cs : List Char}
    (h : decode false buffer data = some (cs, rest)) : buffer ++ data = encode cs ++ rest := by
  induction data generalizing buffer cs with
  | nil =>
    simp only [decode, Option.some.injEq, Prod.mk.injEq] at h
    obtain ⟨rfl, rfl⟩ := h
    simp [encode]
  | cons b data ih =>
    simp only [decode, Option.bind_eq_some_iff, Option.map_eq_some_iff] at h
    obtain ⟨⟨cs₁, buffer₁⟩, hstep, ⟨cs₂, rest₂⟩, hdec, he⟩ := h
    obtain ⟨rfl, rfl⟩ : cs₁ ++ cs₂ = cs ∧ rest₂ = rest := by simpa using he
    have hb : buffer ++ [b] = encode cs₁ ++ buffer₁ := by
      unfold step at hstep
      split at hstep
      · rename_i c hc
        obtain ⟨rfl, rfl⟩ : [c] = cs₁ ∧ [] = buffer₁ := by simpa using hstep
        simp [encode, scan_eq_char hc]
      · obtain ⟨rfl, rfl⟩ : [] = cs₁ ∧ buffer ++ [b] = buffer₁ := by simpa using hstep
        simp [encode]
      · cases hstep
    have := ih hdec
    rw [show buffer ++ b :: data = (buffer ++ [b]) ++ data by simp, hb, List.append_assoc, this]
    simp [encode]

/-- **What a strict decoder reads to the end** is the encoding of a text, of the text it returns. -/
theorem decode_eq_some_iff {data : List UInt8} {cs : List Char} :
    decode false [] data = some (cs, []) ↔ data = encode cs :=
  ⟨fun h => by simpa using encode_of_decode h, fun h => h ▸ decode_encode false cs⟩

end Ticketing.Lib.Utf8
