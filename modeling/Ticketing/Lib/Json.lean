import Ticketing.Lib.Text

/-!
# JSON text: what `json.dumps` writes and `json.loads` reads

* `dumps ascii` is the compact writer (`separators=(",", ":")`) with `ensure_ascii=ascii`. The
  writer's `float` carries the numeral as it stands.
* `loads` is the reader: whitespace between tokens, string escapes with surrogate pairs, and of
  two equal keys of an object the last value. A lone surrogate, which a Python string may hold and
  a `Char` may not, is read as U+FFFD. `none` is a `JSONDecodeError`.

Results:
* `scanString_quote`: a string is read back from its quoted form, whatever follows it.
* `loads_dumps`: what is written reads back, for every value without numbers whose objects have
  distinct keys (`Textual`), in either escaping mode.
* `dumps_injective`: so different values of that kind have different texts.

Out of scope: the meaning of a float, and the depth at which Python's reader gives up.
-/

namespace Ticketing.Lib

open Text (numeral value valueFrom)

inductive Json
  | null
  | bool (b : Bool)
  | int (i : Int)
  | float (text : String)
  | str (s : String)
  | arr (items : List Json)
  | obj (fields : List (String × Json))
  deriving Repr

namespace Json

/-! ## Writing -/

/-- `\uXXXX`. -/
def unicodeEscape (n : Nat) : List Char := '\\' :: 'u' :: numeral 16 4 n

/-- How a character stands inside a string literal. -/
def escape (ascii : Bool) (c : Char) : List Char :=
  let n := c.toNat
  if c = '"' then ['\\', '"']
  else if c = '\\' then ['\\', '\\']
  else if n = 8 then ['\\', 'b']
  else if n = 9 then ['\\', 't']
  else if n = 10 then ['\\', 'n']
  else if n = 12 then ['\\', 'f']
  else if n = 13 then ['\\', 'r']
  else if n < 0x20 then unicodeEscape n
  else if ascii = true ∧ 0x7E < n then
    if n < 0x10000 then unicodeEscape n
    else unicodeEscape (0xD800 + (n - 0x10000) / 0x400) ++
      unicodeEscape (0xDC00 + (n - 0x10000) % 0x400)
  else [c]

/-- A string literal. -/
def quote (ascii : Bool) (s : String) : List Char :=
  '"' :: s.toList.flatMap (escape ascii) ++ ['"']

mutual

/-- `json.dumps(value, ensure_ascii=ascii, separators=(",", ":"))`. -/
def write (ascii : Bool) : Json → List Char
  | null => "null".toList
  | bool true => "true".toList
  | bool false => "false".toList
  | int i => (toString i).toList
  | float t => t.toList
  | str s => quote ascii s
  | arr items => '[' :: writeItems ascii items ++ [']']
  | obj fields => '{' :: writeFields ascii fields ++ ['}']

def writeItems (ascii : Bool) : List Json → List Char
  | [] => []
  | [v] => write ascii v
  | v :: vs => write ascii v ++ ',' :: writeItems ascii vs

def writeFields (ascii : Bool) : List (String × Json) → List Char
  | [] => []
  | [(k, v)] => quote ascii k ++ ':' :: write ascii v
  | (k, v) :: fs => quote ascii k ++ ':' :: write ascii v ++ ',' :: writeFields ascii fs

end

def dumps (ascii : Bool) (v : Json) : String := String.ofList (write ascii v)

/-! ## Reading -/

def isWs (c : Char) : Bool := c = ' ' || c = '\t' || c = '\n' || c = '\r'

def skipWs (cs : List Char) : List Char := cs.dropWhile isWs

/-- The four digits of a `\uXXXX` escape. -/
def hex4 : List Char → Option (Nat × List Char)
  | a :: b :: c :: d :: rest => (valueFrom 16 0 [a, b, c, d]).map (·, rest)
  | _ => none

/-- What is read for a surrogate that is not half of a pair. -/
def loneSurrogate : Char := '\uFFFD'

/-- The character a `\u` escape stands for, with the second half of a surrogate pair. -/
def unescapeUnicode (cs : List Char) : Option (Char × List Char) :=
  match hex4 cs with
  | none => none
  | some (u, rest) =>
    if 0xD800 ≤ u ∧ u ≤ 0xDBFF then
      match rest with
      | '\\' :: 'u' :: more =>
        match hex4 more with
        | some (v, more) =>
          if 0xDC00 ≤ v ∧ v ≤ 0xDFFF then
            some (Char.ofNat (0x10000 + (u - 0xD800) * 0x400 + (v - 0xDC00)), more)
          else some (loneSurrogate, rest)
        | none => none
      | _ => some (loneSurrogate, rest)
    else if 0xDC00 ≤ u ∧ u ≤ 0xDFFF then some (loneSurrogate, rest)
    else some (Char.ofNat u, rest)

/-- The character a one-letter escape stands for. -/
def unescape (c : Char) : Option Char :=
  if c = '"' ∨ c = '\\' ∨ c = '/' then some c
  else if c = 'b' then some (Char.ofNat 8)
  else if c = 'f' then some (Char.ofNat 12)
  else if c = 'n' then some '\n'
  else if c = 'r' then some '\r'
  else if c = 't' then some '\t'
  else none

/-- One character of a string literal, `none` for its closing quote. -/
def scanChar : List Char → Option (Option Char × List Char)
  | [] => none
  | c :: rest =>
    if c = '"' then some (none, rest)
    else if c = '\\' then
      match rest with
      | [] => none
      | d :: rest =>
        if d = 'u' then (unescapeUnicode rest).map fun (e, rest) => (some e, rest)
        else (unescape d).map fun e => (some e, rest)
    else if c.toNat < 0x20 then none
    else some (some c, rest)

/-- The rest of a string literal, after its opening quote. -/
def scanString : Nat → List Char → Option (List Char × List Char)
  | 0, _ => none
  | fuel + 1, cs =>
    match scanChar cs with
    | none => none
    | some (none, rest) => some ([], rest)
    | some (some c, rest) => (scanString fuel rest).map fun (s, rest) => (c :: s, rest)

def isDigit (c : Char) : Bool := '0' ≤ c && c ≤ '9'

/-- The integer part of a numeral: no leading zero. -/
def scanInt (cs : List Char) : Option (List Char × List Char) :=
  match cs with
  | [] => none
  | c :: rest =>
    if c = '0' then some (['0'], rest)
    else if isDigit c then some (cs.takeWhile isDigit, cs.dropWhile isDigit)
    else none

/-- The fraction and the exponent of a numeral, both empty in an integer. -/
def scanFraction (cs : List Char) : List Char × List Char :=
  let (frac, cs) := match cs with
    | '.' :: d :: rest =>
      if isDigit d then ('.' :: (d :: rest).takeWhile isDigit, (d :: rest).dropWhile isDigit)
      else ([], cs)
    | _ => ([], cs)
  let exponent (sign rest : List Char) (e : Char) : List Char × List Char :=
    match rest with
    | d :: _ =>
      if isDigit d then (frac ++ e :: sign ++ rest.takeWhile isDigit, rest.dropWhile isDigit)
      else (frac, cs)
    | [] => (frac, cs)
  match cs with
  | e :: s :: rest =>
    if e = 'e' ∨ e = 'E' then
      if s = '+' ∨ s = '-' then exponent [s] rest e else exponent [] (s :: rest) e
    else (frac, cs)
  | _ => (frac, cs)

/-- A number, or one of the three constants `json.loads` also reads. -/
def scanNumber (cs : List Char) : Option (Json × List Char) :=
  let number (negative : Bool) (cs : List Char) : Option (Json × List Char) :=
    match scanInt cs with
    | none => none
    | some (digits, rest) =>
      let (fraction, rest) := scanFraction rest
      if fraction.isEmpty then
        let n : Int := ((valueFrom 10 0 digits).getD 0 : Nat)
        some (int (if negative then -n else n), rest)
      else some (float (String.ofList ((if negative then ['-'] else []) ++ digits ++ fraction)),
        rest)
  match cs with
  | 'N' :: 'a' :: 'N' :: rest => some (float "NaN", rest)
  | 'I' :: 'n' :: 'f' :: 'i' :: 'n' :: 'i' :: 't' :: 'y' :: rest => some (float "Infinity", rest)
  | '-' :: 'I' :: 'n' :: 'f' :: 'i' :: 'n' :: 'i' :: 't' :: 'y' :: rest =>
    some (float "-Infinity", rest)
  | '-' :: rest => number true rest
  | _ => number false cs

/-- A dictionary built from pairs: a repeated key keeps its place and takes the last value. -/
def setField : List (String × Json) → String × Json → List (String × Json)
  | [], f => [f]
  | g :: gs, f => if g.1 = f.1 then f :: gs else g :: setField gs f

def dict (fields : List (String × Json)) : List (String × Json) := fields.foldl setField []

mutual

def scanValue : Nat → List Char → Option (Json × List Char)
  | 0, _ => none
  | fuel + 1, cs =>
    match cs with
    | [] => none
    | c :: rest =>
      if c = '"' then (scanString fuel rest).map fun (s, rest) => (str (String.ofList s), rest)
      else if c = '[' then
        match skipWs rest with
        | ']' :: rest => some (arr [], rest)
        | rest => (scanItems fuel rest).map fun (vs, rest) => (arr vs, rest)
      else if c = '{' then
        match skipWs rest with
        | '}' :: rest => some (obj [], rest)
        | rest => (scanFields fuel rest).map fun (fs, rest) => (obj (dict fs), rest)
      else match cs with
        | 'n' :: 'u' :: 'l' :: 'l' :: rest => some (null, rest)
        | 't' :: 'r' :: 'u' :: 'e' :: rest => some (bool true, rest)
        | 'f' :: 'a' :: 'l' :: 's' :: 'e' :: rest => some (bool false, rest)
        | _ => scanNumber cs

def scanItems : Nat → List Char → Option (List Json × List Char)
  | 0, _ => none
  | fuel + 1, cs =>
    match scanValue fuel cs with
    | none => none
    | some (v, rest) =>
      match skipWs rest with
      | [] => none
      | c :: rest =>
        if c = ',' then (scanItems fuel (skipWs rest)).map fun (vs, rest) => (v :: vs, rest)
        else if c = ']' then some ([v], rest)
        else none

def scanFields : Nat → List Char → Option (List (String × Json) × List Char)
  | 0, _ => none
  | fuel + 1, cs =>
    match cs with
    | '"' :: rest =>
      match scanString fuel rest with
      | none => none
      | some (k, rest) =>
        match skipWs rest with
        | ':' :: rest =>
          match scanValue fuel (skipWs rest) with
          | none => none
          | some (v, rest) =>
            match skipWs rest with
            | [] => none
            | c :: rest =>
              if c = ',' then
                (scanFields fuel (skipWs rest)).map fun (fs, rest) =>
                  ((String.ofList k, v) :: fs, rest)
              else if c = '}' then some ([(String.ofList k, v)], rest)
              else none
        | _ => none
    | _ => none

end

/-- Nothing `json.loads` reads needs more steps than characters. -/
def loads (text : String) : Option Json :=
  let cs := text.toList
  match scanValue (2 * cs.length + 2) (skipWs cs) with
  | some (v, rest) => if (skipWs rest).isEmpty then some v else none
  | none => none

/-! ## Strings read back -/

theorem hex4_numeral {n : Nat} (hn : n < 0x10000) (rest : List Char) :
    hex4 (numeral 16 4 n ++ rest) = some (n, rest) := by
  have hv := Text.valueFrom_numeral (b := 16) (by omega) (by omega) 4 n 0
  simp only [numeral, List.nil_append, List.cons_append] at hv ⊢
  simp only [hex4, hv, Option.map_some]
  congr 2
  omega

theorem unescapeUnicode_numeral {n : Nat} (hn : n < 0x10000) (hs : n < 0xD800 ∨ 0xDFFF < n)
    (rest : List Char) : unescapeUnicode (numeral 16 4 n ++ rest) = some (Char.ofNat n, rest) := by
  simp only [unescapeUnicode, hex4_numeral hn]
  rw [if_neg (by omega), if_neg (by omega)]

theorem unescapeUnicode_pair {m : Nat} (hm : m < 0x100000) (rest : List Char) :
    unescapeUnicode (numeral 16 4 (0xD800 + m / 0x400) ++
        '\\' :: 'u' :: (numeral 16 4 (0xDC00 + m % 0x400) ++ rest)) =
      some (Char.ofNat (0x10000 + m), rest) := by
  simp only [unescapeUnicode, hex4_numeral (show 0xD800 + m / 0x400 < 0x10000 by omega),
    hex4_numeral (show 0xDC00 + m % 0x400 < 0x10000 by omega)]
  rw [if_pos (by omega), if_pos (by omega)]
  have : 0x10000 + (0xD800 + m / 0x400 - 0xD800) * 0x400 + (0xDC00 + m % 0x400 - 0xDC00) =
      0x10000 + m := by omega
  rw [this]

theorem scanChar_unicode (cs : List Char) :
    scanChar ('\\' :: 'u' :: cs) =
      (unescapeUnicode cs).map fun (e, rest) => (some e, rest) := rfl

theorem char_range (c : Char) : c.toNat < 0xD800 ∨ 0xDFFF < c.toNat ∧ c.toNat < 0x110000 :=
  c.valid

theorem char_eq_of_toNat {c : Char} {n : Nat} (h : c.toNat = n) : c = Char.ofNat n := by
  rw [← h, Char.ofNat_toNat]

/-- **A character reads back from how it is written.** -/
theorem scanChar_escape (ascii : Bool) (c : Char) (rest : List Char) :
    scanChar (escape ascii c ++ rest) = some (some c, rest) := by
  have hr := char_range c
  simp only [escape]
  split_ifs with h1 h2 h3 h4 h5 h6 h7 h8 h9 h10
  · subst h1; rfl
  · subst h2; rfl
  · rw [char_eq_of_toNat h3]; rfl
  · rw [char_eq_of_toNat h4]; rfl
  · rw [char_eq_of_toNat h5]; rfl
  · rw [char_eq_of_toNat h6]; rfl
  · rw [char_eq_of_toNat h7]; rfl
  · simp only [unicodeEscape, List.cons_append, scanChar_unicode]
    rw [unescapeUnicode_numeral (by omega) (by omega), Option.map_some, Char.ofNat_toNat]
  · simp only [unicodeEscape, List.cons_append, scanChar_unicode]
    rw [unescapeUnicode_numeral h10 (by omega), Option.map_some, Char.ofNat_toNat]
  · simp only [unicodeEscape, List.cons_append, List.append_assoc, scanChar_unicode]
    rw [unescapeUnicode_pair (by omega), Option.map_some,
      show 0x10000 + (c.toNat - 0x10000) = c.toNat by omega, Char.ofNat_toNat]
  · simp only [List.cons_append, List.nil_append, scanChar]
    rw [if_neg h1, if_neg h2, if_neg h8]

theorem scanString_quote (ascii : Bool) (s rest : List Char) {n : Nat} (hf : s.length < n) :
    scanString n (s.flatMap (escape ascii) ++ '"' :: rest) = some (s, rest) := by
  induction s generalizing n with
  | nil =>
    obtain ⟨n, rfl⟩ : ∃ k, n = k + 1 := ⟨n - 1, by simp at hf; omega⟩
    rfl
  | cons c s ih =>
    obtain ⟨n, rfl⟩ : ∃ k, n = k + 1 := ⟨n - 1, by simp at hf; omega⟩
    simp only [List.flatMap_cons, List.append_assoc, scanString, scanChar_escape]
    rw [ih (by simpa using hf), Option.map_some]

/-! ## Values read back -/

mutual

/-- No numbers, and the keys of every object are distinct. -/
def Textual : Json → Prop
  | null | bool _ | str _ => True
  | int _ | float _ => False
  | arr items => TextualItems items
  | obj fields => (fields.map Prod.fst).Nodup ∧ TextualFields fields

def TextualItems : List Json → Prop
  | [] => True
  | v :: vs => Textual v ∧ TextualItems vs

def TextualFields : List (String × Json) → Prop
  | [] => True
  | (_, v) :: fs => Textual v ∧ TextualFields fs

end

theorem setField_fresh {fields : List (String × Json)} {f : String × Json}
    (h : f.1 ∉ fields.map Prod.fst) : setField fields f = fields ++ [f] := by
  induction fields with
  | nil => rfl
  | cons g gs ih =>
    simp only [List.map_cons, List.mem_cons, not_or] at h
    rw [setField, if_neg (Ne.symm h.1), ih h.2, List.cons_append]

theorem foldl_setField {fields acc : List (String × Json)}
    (h : ((acc ++ fields).map Prod.fst).Nodup) : fields.foldl setField acc = acc ++ fields := by
  induction fields generalizing acc with
  | nil => simp
  | cons f fs ih =>
    have hf : f.1 ∉ acc.map Prod.fst := by
      intro hmem
      rw [List.map_append, List.map_cons, List.nodup_append] at h
      exact h.2.2 _ hmem _ List.mem_cons_self rfl
    rw [List.foldl_cons, setField_fresh hf, ih (by simpa using h)]
    simp

theorem dict_of_nodup {fields : List (String × Json)} (h : (fields.map Prod.fst).Nodup) :
    dict fields = fields := by
  simpa [dict] using @foldl_setField fields [] (by simpa using h)

/-- The first character of a written value: never whitespace, never a closing bracket. -/
theorem write_head (ascii : Bool) {v : Json} (h : Textual v) :
    ∃ c cs, write ascii v = c :: cs ∧ isWs c = false ∧ c ≠ ']' := by
  cases v with
  | null => exact ⟨_, _, rfl, by decide, by decide⟩
  | bool b => cases b <;> exact ⟨_, _, rfl, by decide, by decide⟩
  | int i => exact h.elim
  | float t => exact h.elim
  | str s => exact ⟨_, _, rfl, by decide, by decide⟩
  | arr items => exact ⟨_, _, rfl, by decide, by decide⟩
  | obj fields => exact ⟨_, _, rfl, by decide, by decide⟩

theorem skipWs_cons {c : Char} (h : isWs c = false) (cs : List Char) :
    skipWs (c :: cs) = c :: cs := by
  simp [skipWs, h]

theorem skipWs_write (ascii : Bool) {v : Json} (h : Textual v) (rest : List Char) :
    skipWs (write ascii v ++ rest) = write ascii v ++ rest := by
  obtain ⟨c, cs, hv, hc, -⟩ := write_head ascii h
  rw [hv, List.cons_append, skipWs_cons hc]

theorem skipWs_quote (ascii : Bool) (k : String) (rest : List Char) :
    skipWs (quote ascii k ++ rest) = quote ascii k ++ rest := skipWs_cons (by decide) _

theorem length_le_quote (ascii : Bool) (s : String) :
    s.toList.length + 2 ≤ (quote ascii s).length := by
  have h : ∀ cs : List Char, cs.length ≤ (cs.flatMap (escape ascii)).length := by
    intro cs
    induction cs with
    | nil => simp
    | cons c cs ih =>
      have : 1 ≤ (escape ascii c).length := by
        simp only [escape]
        split_ifs <;> simp [unicodeEscape]
      simp only [List.flatMap_cons, List.length_append, List.length_cons]
      omega
  have := h s.toList
  simp only [quote, List.cons_append, List.length_cons, List.length_append, List.length_nil]
  omega

theorem scanString_rest (ascii : Bool) (s : String) (rest : List Char) {n : Nat}
    (hf : (quote ascii s).length ≤ n + 1) :
    scanString n (s.toList.flatMap (escape ascii) ++ '"' :: rest) = some (s.toList, rest) := by
  have := length_le_quote ascii s
  exact scanString_quote ascii s.toList rest (by omega)

theorem writeItems_cons (ascii : Bool) (v : Json) (vs : List Json) :
    ∃ tail, writeItems ascii (v :: vs) = write ascii v ++ tail := by
  cases vs with
  | nil => exact ⟨[], by simp only [writeItems, List.append_nil]⟩
  | cons w ws => exact ⟨_, rfl⟩

theorem writeFields_cons (ascii : Bool) (k : String) (v : Json) (fs : List (String × Json)) :
    ∃ tail, writeFields ascii ((k, v) :: fs) = quote ascii k ++ tail := by
  cases fs with
  | nil => exact ⟨_, rfl⟩
  | cons f fs => exact ⟨_, List.append_assoc ..⟩

theorem skipWs_writeItems (ascii : Bool) {v : Json} {vs : List Json} (h : Textual v)
    (rest : List Char) :
    skipWs (writeItems ascii (v :: vs) ++ rest) = writeItems ascii (v :: vs) ++ rest := by
  obtain ⟨tail, ht⟩ := writeItems_cons ascii v vs
  rw [ht, List.append_assoc, skipWs_write ascii h]

theorem skipWs_writeFields (ascii : Bool) (f : String × Json) (fs : List (String × Json))
    (rest : List Char) :
    skipWs (writeFields ascii (f :: fs) ++ rest) = writeFields ascii (f :: fs) ++ rest := by
  obtain ⟨tail, ht⟩ := writeFields_cons ascii f.1 f.2 fs
  rw [ht, List.append_assoc, skipWs_quote]

mutual

theorem scanValue_write (ascii : Bool) (v : Json) (h : Textual v) (rest : List Char) {n : Nat}
    (hf : (write ascii v).length ≤ n) :
    scanValue n (write ascii v ++ rest) = some (v, rest) := by
  obtain ⟨n, rfl⟩ : ∃ k, n = k + 1 := by
    obtain ⟨c, cs, hv, -, -⟩ := write_head ascii h
    exact ⟨n - 1, by simp [hv] at hf; omega⟩
  match v, h with
  | null, _ => rfl
  | bool true, _ => rfl
  | bool false, _ => rfl
  | str s, _ =>
    simp only [write] at hf
    simp only [write, quote, List.cons_append, List.append_assoc, List.nil_append, scanValue,
      if_true, scanString_rest ascii s rest hf, Option.map_some, String.ofList_toList]
  | arr [], _ => rfl
  | arr (v :: vs), h =>
    have hi := scanItems_write ascii (v :: vs) h (List.cons_ne_nil _ _) rest (n := n)
      (by simp only [write, List.cons_append, List.length_cons, List.length_append,
            List.length_nil] at hf
          omega)
    obtain ⟨c, cs, hv, hc, hb⟩ := write_head ascii h.1
    obtain ⟨tail, ht⟩ := writeItems_cons ascii v vs
    simp only [write, List.cons_append, List.append_assoc, List.nil_append, scanValue]
    rw [ht, hv] at hi ⊢
    rw [if_neg (by decide), if_pos trivial]
    simp only [List.cons_append] at hi ⊢
    rw [skipWs_cons hc]
    -- the first character is no `]`, so the reader takes the items
    split
    · rename_i heq
      exact absurd (List.cons.inj heq).1 hb
    · simp only [hi, Option.map_some]
  | obj [], _ => rfl
  | obj ((k, v) :: fs), h =>
    have hi := scanFields_write ascii ((k, v) :: fs) h.2 (List.cons_ne_nil _ _) rest (n := n)
      (by simp only [write, List.cons_append, List.length_cons, List.length_append,
            List.length_nil] at hf
          omega)
    obtain ⟨tail, ht⟩ := writeFields_cons ascii k v fs
    simp only [write, List.cons_append, List.append_assoc, List.nil_append, scanValue]
    rw [ht] at hi ⊢
    rw [if_neg (by decide), if_neg (by decide), if_pos trivial]
    simp only [quote, List.cons_append] at hi ⊢
    rw [skipWs_cons (by decide)]
    split
    · rename_i heq
      exact absurd (List.cons.inj heq).1 (by decide)
    · simp only [hi, Option.map_some, dict_of_nodup h.1]

theorem scanItems_write (ascii : Bool) (vs : List Json) (h : TextualItems vs) (hne : vs ≠ [])
    (rest : List Char) {n : Nat} (hf : (writeItems ascii vs).length + 1 ≤ n) :
    scanItems n (writeItems ascii vs ++ ']' :: rest) = some (vs, rest) := by
  obtain ⟨n, rfl⟩ : ∃ k, n = k + 1 := ⟨n - 1, by omega⟩
  match vs, h with
  | [v], h =>
    simp only [writeItems] at hf
    simp only [writeItems, scanItems, scanValue_write ascii v h.1 _ (Nat.le_of_succ_le_succ hf)]
    rfl
  | v :: w :: vs, h =>
    simp only [writeItems, List.length_append, List.length_cons] at hf
    have hi := scanItems_write ascii (w :: vs) h.2 (List.cons_ne_nil _ _) rest (n := n)
      (by omega)
    simp only [writeItems, List.append_assoc, List.cons_append, scanItems,
      scanValue_write ascii v h.1 _ (show (write ascii v).length ≤ n by omega),
      skipWs_cons (show isWs ',' = false by decide), if_true]
    rw [skipWs_writeItems ascii h.2.1, hi, Option.map_some]

theorem scanFields_write (ascii : Bool) (fs : List (String × Json)) (h : TextualFields fs)
    (hne : fs ≠ []) (rest : List Char) {n : Nat}
    (hf : (writeFields ascii fs).length + 1 ≤ n) :
    scanFields n (writeFields ascii fs ++ '}' :: rest) = some (fs, rest) := by
  obtain ⟨n, rfl⟩ : ∃ k, n = k + 1 := ⟨n - 1, by omega⟩
  match fs, h with
  | [(k, v)], h =>
    simp only [writeFields, List.length_append, List.length_cons] at hf
    have hk := fun rest => scanString_rest ascii k rest (n := n) (by omega)
    have hv := fun rest => scanValue_write ascii v h.1 rest (n := n) (by omega)
    simp only [writeFields, List.append_assoc, List.cons_append, quote, List.nil_append, scanFields,
      hk, skipWs_cons (show isWs ':' = false by decide), skipWs_write ascii h.1, hv,
      skipWs_cons (show isWs '}' = false by decide), String.ofList_toList]
    rfl
  | (k, v) :: f :: fs, h =>
    simp only [writeFields, List.length_append, List.length_cons] at hf
    have hi := scanFields_write ascii (f :: fs) h.2 (List.cons_ne_nil _ _) rest (n := n)
      (by omega)
    have hk := fun rest => scanString_rest ascii k rest (n := n) (by omega)
    have hv := fun rest => scanValue_write ascii v h.1 rest (n := n) (by omega)
    simp only [writeFields, List.append_assoc, List.cons_append, quote, List.nil_append, scanFields,
      hk, skipWs_cons (show isWs ':' = false by decide), skipWs_write ascii h.1, hv,
      skipWs_cons (show isWs ',' = false by decide), if_true, String.ofList_toList]
    rw [skipWs_writeFields, hi, Option.map_some]

end

/-- **What is written reads back.** -/
theorem loads_dumps (ascii : Bool) {v : Json} (h : Textual v) : loads (dumps ascii v) = some v := by
  have hs := skipWs_write ascii h []
  have hv := scanValue_write ascii v h [] (n := 2 * (write ascii v).length + 2) (by omega)
  rw [List.append_nil] at hs hv
  simp only [loads, dumps, String.toList_ofList, hs, hv]
  rfl

/-- **The writer is injective.** -/
theorem dumps_injective (ascii : Bool) {v w : Json} (hv : Textual v) (hw : Textual w)
    (h : dumps ascii v = dumps ascii w) : v = w := by
  have := loads_dumps ascii hv
  rw [h, loads_dumps ascii hw] at this
  exact (Option.some.inj this).symm

end Json

end Ticketing.Lib
