import Ticketing.Lib.Json
import Ticketing.Lib.Regex
import Ticketing.Model.World

/-!
# `core/logging.py`

`RedactingJsonFormatter._redact_value` over every value a log record can carry.

* `LogValue` is such a value. A mapping comes as its items under the text `str` makes of their
  keys, in the mapping's order; a sequence is a list, a tuple or a set, in the order in which it
  is iterated; anything else comes as the text `str` makes of it.
* `redactText` is `_redact_text`, with the patterns of the module (`textRedactions`) as regular
  expressions of `Lib.Regex`; `isSensitive` is the test of a key against `_SENSITIVE_KEY_PARTS`.
* `Redacted` says what the output may show of a value: under a sensitive key nothing, of a text
  its redaction, of a mapping or a sequence what it may show of the parts.

Results:
* **`redacted_iff`**: the output shows no more than that of a value exactly where the keys of the
  mappings in it hold nothing to redact (`PlainKeys`).
* `keys_are_not_redacted`: an email address that is a key is copied as it stands.

Out of scope: the JSON text that is made of the output, and the fields `format` adds of its own.
-/

namespace Ticketing.Logging

open Lib (Json Regex UnicodeTables)

/-- A value under an extra field of a log record. -/
inductive LogValue
  | none
  | bool (b : Bool)
  | int (i : Int)
  | float (text : String)
  | str (s : String)
  | dict (items : List (String × LogValue))
  | sequence (items : List LogValue)
  /-- Any other object, as `str` shows it. -/
  | other (text : String)

/-- `_SENSITIVE_KEY_PARTS`. -/
def sensitiveKeyParts : List String :=
  ["authorization", "cookie", "token", "password", "secret", "email", "phone", "attachment",
    "filename", "object_key", "recipient"]

section Patterns

variable (U : UnicodeTables)

open Lib.Regex

/-- `[A-Z0-9]` and the characters of `more`, whatever the case. -/
def alnumOr (more : String) : Char → Bool :=
  U.caseless fun c => ('a' ≤ c && c ≤ 'z') || ('0' ≤ c && c ≤ '9') || more.toList.contains c

/-- `(?i)bearer\s+[A-Za-z0-9._~+/\-]+=*`. -/
def bearerPattern : Regex :=
  seq (word U.caseless "bearer".toList) <| seq (many 1 (one U.isSpace)) <|
    seq (many 1 (one (alnumOr U "._~+-/"))) (many 0 (one (· = '=')))

/-- `(?i)\b(?:access_token|refresh_token|token|password|secret)\s*[:=]\s*\S+`. -/
def secretPattern : Regex :=
  seq (boundary U.isWord) <|
    seq (alt (word U.caseless "access_token".toList) <|
      alt (word U.caseless "refresh_token".toList) <| alt (word U.caseless "token".toList) <|
      alt (word U.caseless "password".toList) (word U.caseless "secret".toList)) <|
    seq (many 0 (one U.isSpace)) <| seq (one fun c => c = ':' || c = '=') <|
      seq (many 0 (one U.isSpace)) (many 1 (one fun c => !U.isSpace c))

/-- `(?i)\b[A-Z0-9._%+-]+@[A-Z0-9.-]+\.[A-Z]{2,}\b`. -/
def emailPattern : Regex :=
  seq (boundary U.isWord) <| seq (many 1 (one (alnumOr U "._%+-"))) <| seq (one (· = '@')) <|
    seq (many 1 (one (alnumOr U ".-"))) <| seq (one (· = '.')) <|
      seq (many 2 (one (U.caseless fun c => 'a' ≤ c && c ≤ 'z'))) (boundary U.isWord)

/-- `(?<!\d)(?:\+?\d[\d ()-]{8,}\d)(?!\d)`. -/
def phonePattern : Regex :=
  seq (notBehind U.isDecimal) <| seq (opt (one (· = '+'))) <| seq (one U.isDecimal) <|
    seq (many 8 (one fun c => U.isDecimal c || " ()-".toList.contains c)) <|
      seq (one U.isDecimal) (notAhead U.isDecimal)

/-- `_TEXT_REDACTIONS`. -/
def textRedactions : List (Regex × String) :=
  [(bearerPattern U, "Bearer [REDACTED]"), (secretPattern U, "[REDACTED_SECRET]"),
    (emailPattern U, "[REDACTED_EMAIL]"), (phonePattern U, "[REDACTED_PHONE]")]

/-- `_redact_text`. -/
def redactText (value : String) : String :=
  (textRedactions U).foldl (fun redacted (pattern, replacement) =>
    pattern.sub replacement redacted) value

end Patterns

variable (P : Platform) (U : UnicodeTables)

/-- The key contains a sensitive part. -/
def isSensitive (key : String) : Bool :=
  let normalizedKey := Lib.Text.replaceChar '-' '_' (P.lower key)
  sensitiveKeyParts.any (Lib.Text.contains normalizedKey)

mutual

/-- `_redact_value`. -/
def redactValue (key : String) (value : LogValue) : Json :=
  if isSensitive P key then .str "[REDACTED]"
  else
    match value with
    | .dict items => .obj (redactItems items [])
    | .sequence items => .arr (redactAll key items)
    | .str s => .str (redactText U s)
    | .none => .null
    | .bool b => .bool b
    | .int i => .int i
    | .float text => .float text
    | .other text => .str (redactText U text)

/-- The dictionary comprehension, from the entries it has so far. -/
def redactItems : List (String × LogValue) → List (String × Json) → List (String × Json)
  | [], fields => fields
  | (itemKey, item) :: items, fields =>
    redactItems items (Json.setField fields (itemKey, redactValue itemKey item))

def redactAll (key : String) : List LogValue → List Json
  | [] => []
  | item :: items => redactValue key item :: redactAll key items

end

/-! ## What the output may show -/

/-- `out` may stand for `text` in the output. -/
def Shown (text out : String) : Prop := out = "[REDACTED]" ∨ out = redactText U text

/-- An entry under a text that is there takes the place of the one it replaces. -/
def setItem {α : Type} : List (String × α) → String × α → List (String × α)
  | [], e => [e]
  | g :: gs, e => if g.1 = e.1 then e :: gs else g :: setItem gs e

/-- The entries of a mapping under the texts of its keys. -/
def entries (items : List (String × LogValue)) : List (String × LogValue) :=
  items.foldl setItem []

mutual

/-- `out` shows no more of a value found under `key` than it may. -/
inductive Redacted : String → LogValue → Json → Prop
  | sensitive {key : String} {value : LogValue} (h : isSensitive P key = true) :
    Redacted key value (.str "[REDACTED]")
  | none {key : String} (h : isSensitive P key = false) : Redacted key .none .null
  | bool {key : String} {b : Bool} (h : isSensitive P key = false) :
    Redacted key (.bool b) (.bool b)
  | int {key : String} {i : Int} (h : isSensitive P key = false) : Redacted key (.int i) (.int i)
  | float {key text : String} (h : isSensitive P key = false) :
    Redacted key (.float text) (.float text)
  | str {key s out : String} (h : isSensitive P key = false) (hs : Shown U s out) :
    Redacted key (.str s) (.str out)
  | other {key text out : String} (h : isSensitive P key = false) (hs : Shown U text out) :
    Redacted key (.other text) (.str out)
  | sequence {key : String} {items : List LogValue} {outs : List Json}
    (h : isSensitive P key = false) (hs : RedactedAll key items outs) :
    Redacted key (.sequence items) (.arr outs)
  | dict {key : String} {items : List (String × LogValue)} {fields : List (String × Json)}
    (h : isSensitive P key = false) (hs : RedactedItems (entries items) fields) :
    Redacted key (.dict items) (.obj fields)

inductive RedactedAll : String → List LogValue → List Json → Prop
  | nil {key : String} : RedactedAll key [] []
  | cons {key : String} {item : LogValue} {items : List LogValue} {out : Json} {outs : List Json}
    (h : Redacted key item out) (hs : RedactedAll key items outs) :
    RedactedAll key (item :: items) (out :: outs)

inductive RedactedItems : List (String × LogValue) → List (String × Json) → Prop
  | nil : RedactedItems [] []
  | cons {itemKey outKey : String} {item : LogValue} {items : List (String × LogValue)}
    {out : Json} {fields : List (String × Json)} (hk : Shown U itemKey outKey)
    (h : Redacted itemKey item out) (hs : RedactedItems items fields) :
    RedactedItems ((itemKey, item) :: items) ((outKey, out) :: fields)

end

mutual

/-- Below no sensitive key does a mapping have a key whose text says more than it may. Of two keys
with one text only the later counts. -/
def PlainKeys (key : String) (value : LogValue) : Prop :=
  isSensitive P key = true ∨
    match value with
    | .dict items => PlainItems items
    | .sequence items => PlainAll key items
    | _ => True

def PlainItems : List (String × LogValue) → Prop
  | [] => True
  | (itemKey, item) :: items =>
    (itemKey ∈ items.map Prod.fst ∨ Shown U itemKey itemKey ∧ PlainKeys itemKey item) ∧
      PlainItems items

def PlainAll (key : String) : List LogValue → Prop
  | [] => True
  | item :: items => PlainKeys key item ∧ PlainAll key items

end

/-! ## Entries -/

theorem map_setItem (items : List (String × LogValue)) (e : String × LogValue) :
    (setItem items e).map (fun e => (e.1, redactValue P U e.1 e.2)) =
      Json.setField (items.map fun e => (e.1, redactValue P U e.1 e.2))
        (e.1, redactValue P U e.1 e.2) := by
  induction items with
  | nil => rfl
  | cons g gs ih =>
    by_cases h : g.1 = e.1
    · simp [setItem, Json.setField, h]
    · simp [setItem, Json.setField, h, ih]

theorem redactItems_eq (items acc : List (String × LogValue)) :
    redactItems P U items (acc.map fun e => (e.1, redactValue P U e.1 e.2)) =
      (items.foldl setItem acc).map fun e => (e.1, redactValue P U e.1 e.2) := by
  induction items generalizing acc with
  | nil => rfl
  | cons e items ih => rw [redactItems, ← map_setItem, ih, List.foldl_cons]

theorem mem_setItem {α : Type} {items : List (String × α)} {e x : String × α}
    (hn : (items.map Prod.fst).Nodup) :
    x ∈ setItem items e ↔ x = e ∨ x ∈ items ∧ x.1 ≠ e.1 := by
  induction items with
  | nil => simp [setItem]
  | cons g gs ih =>
    rw [List.map_cons, List.nodup_cons] at hn
    by_cases h : g.1 = e.1
    · rw [setItem, if_pos h, List.mem_cons]
      refine or_congr_right ⟨fun hx => ⟨List.mem_cons_of_mem _ hx, fun he => hn.1 ?_⟩,
        fun ⟨hx, hne⟩ => ?_⟩
      · rw [h, ← he]
        exact List.mem_map_of_mem hx
      · rcases List.mem_cons.mp hx with rfl | hx
        · exact absurd h hne
        · exact hx
    · rw [setItem, if_neg h, List.mem_cons, ih hn.2, List.mem_cons]
      constructor
      · rintro (rfl | rfl | ⟨hx, hne⟩)
        · exact .inr ⟨.inl rfl, h⟩
        · exact .inl rfl
        · exact .inr ⟨.inr hx, hne⟩
      · rintro (rfl | ⟨rfl | hx, hne⟩)
        · exact .inr (.inl rfl)
        · exact .inl rfl
        · exact .inr (.inr ⟨hx, hne⟩)

theorem keys_setItem {α : Type} (items : List (String × α)) (e : String × α) :
    (setItem items e).map Prod.fst = if e.1 ∈ items.map Prod.fst then items.map Prod.fst
      else items.map Prod.fst ++ [e.1] := by
  induction items with
  | nil => rfl
  | cons g gs ih =>
    by_cases h : g.1 = e.1
    · simp [setItem, h]
    · have hne : e.1 ≠ g.1 := Ne.symm h
      rw [setItem, if_neg h, List.map_cons, ih]
      split_ifs with h₁ h₂ h₂
      · rfl
      · exact absurd (List.mem_cons_of_mem _ h₁) h₂
      · exact absurd ((List.mem_cons.mp h₂).resolve_left hne) h₁
      · rfl

theorem nodup_setItem {α : Type} {items : List (String × α)} (e : String × α)
    (hn : (items.map Prod.fst).Nodup) : ((setItem items e).map Prod.fst).Nodup := by
  rw [keys_setItem]
  split
  · exact hn
  · rename_i h
    exact List.nodup_append.mpr ⟨hn, List.nodup_singleton _, fun a ha b hb hab =>
      h (by rwa [← List.mem_singleton.mp hb, ← hab])⟩

/-- `Q` holds of the last item under each text. -/
def OfLast (Q : String × LogValue → Prop) : List (String × LogValue) → Prop
  | [] => True
  | e :: items => (e.1 ∈ items.map Prod.fst ∨ Q e) ∧ OfLast Q items

/-- The entries of a mapping are the last items under their texts. -/
theorem forall_foldl_setItem {Q : String × LogValue → Prop}
    (items acc : List (String × LogValue)) (hn : (acc.map Prod.fst).Nodup) :
    (∀ e ∈ items.foldl setItem acc, Q e) ↔
      (∀ e ∈ acc, e.1 ∈ items.map Prod.fst ∨ Q e) ∧ OfLast Q items := by
  induction items generalizing acc with
  | nil => simp [OfLast]
  | cons e items ih =>
    rw [List.foldl_cons, ih _ (nodup_setItem e hn), OfLast, ← and_assoc]
    refine and_congr_left' ⟨fun h => ⟨fun x hx => ?_, h e ((mem_setItem hn).mpr (.inl rfl))⟩,
      fun ⟨hacc, he⟩ x hx => ?_⟩
    · by_cases hk : x.1 = e.1
      · exact .inl (by simp [hk])
      · exact (h x ((mem_setItem hn).mpr (.inr ⟨hx, hk⟩))).imp_left (List.mem_cons_of_mem _)
    · rcases (mem_setItem hn).mp hx with rfl | ⟨hx, hk⟩
      · exact he
      · exact (hacc x hx).imp_left fun hmem => (List.mem_cons.mp hmem).resolve_left hk

/-- A mapping's output shows no more than it may when each of its entries does not. -/
theorem redactedItems_iff (items : List (String × LogValue)) :
    RedactedItems P U (entries items) (redactItems P U items []) ↔
      OfLast (fun e => Shown U e.1 e.1 ∧ Redacted P U e.1 e.2 (redactValue P U e.1 e.2)) items := by
  have hentries (es : List (String × LogValue)) :
      RedactedItems P U es (es.map fun e => (e.1, redactValue P U e.1 e.2)) ↔
        ∀ e ∈ es, Shown U e.1 e.1 ∧ Redacted P U e.1 e.2 (redactValue P U e.1 e.2) := by
    induction es with
    | nil => exact iff_of_true .nil nofun
    | cons e es ih =>
      rw [List.map_cons, List.forall_mem_cons, ← ih]
      exact ⟨fun h => by cases h with | cons hk h hs => exact ⟨⟨hk, h⟩, hs⟩,
        fun h => .cons h.1.1 h.1.2 h.2⟩
  have hfields := redactItems_eq P U items []
  rw [List.map_nil] at hfields
  rw [hfields, ← entries, hentries, entries, forall_foldl_setItem items [] List.nodup_nil]
  simp

/-! ## The headline -/

theorem plainItems_iff {items : List (String × LogValue)}
    (h : ∀ e ∈ items, (Redacted P U e.1 e.2 (redactValue P U e.1 e.2) ↔ PlainKeys P U e.1 e.2)) :
    OfLast (fun e => Shown U e.1 e.1 ∧ Redacted P U e.1 e.2 (redactValue P U e.1 e.2)) items ↔
      PlainItems P U items := by
  induction items with
  | nil => simp [OfLast, PlainItems]
  | cons e items ih =>
    rw [OfLast, PlainItems, h e List.mem_cons_self,
      ih fun x hx => h x (List.mem_cons_of_mem _ hx)]

theorem redactedAll_iff {key : String} {items : List LogValue}
    (h : ∀ item ∈ items, (Redacted P U key item (redactValue P U key item) ↔
      PlainKeys P U key item)) :
    RedactedAll P U key items (redactAll P U key items) ↔ PlainAll P U key items := by
  induction items with
  | nil =>
    rw [PlainAll]
    exact iff_of_true .nil trivial
  | cons item items ih =>
    rw [PlainAll, redactAll, ← h item List.mem_cons_self,
      ← ih fun x hx => h x (List.mem_cons_of_mem _ hx)]
    exact ⟨fun h => by cases h with | cons h hs => exact ⟨h, hs⟩, fun h => .cons h.1 h.2⟩

/-- **The output of `_redact_value` shows no more of a value than it may, exactly when the keys of
its mappings say no more than they may as they stand.** -/
theorem redacted_iff (key : String) (value : LogValue) :
    Redacted P U key value (redactValue P U key value) ↔ PlainKeys P U key value := by
  by_cases hs : isSensitive P key = true
  · have hplain : PlainKeys P U key value := by
      unfold PlainKeys
      exact .inl hs
    refine iff_of_true ?_ hplain
    unfold redactValue
    rw [if_pos hs]
    exact .sensitive hs
  · have hs' : isSensitive P key = false := Bool.eq_false_iff.mpr hs
    unfold redactValue PlainKeys
    rw [if_neg hs]
    cases value with
    | none => simpa using Redacted.none hs'
    | bool b => simpa using Redacted.bool hs'
    | int i => simpa using Redacted.int hs'
    | float text => simpa using Redacted.float hs'
    | str s => simpa using Redacted.str hs' (.inr rfl)
    | other text => simpa using Redacted.other hs' (.inr rfl)
    | dict items =>
      have hitems := @plainItems_iff P U items fun e he => redacted_iff e.1 e.2
      refine Iff.trans ⟨fun h => ?_, fun h => ?_⟩ (or_iff_right hs).symm
      · cases h with
        | dict _ h => exact hitems.mp ((redactedItems_iff P U items).mp h)
      · exact .dict hs' ((redactedItems_iff P U items).mpr (hitems.mpr h))
    | sequence items =>
      have hitems := @redactedAll_iff P U key items fun item hi => redacted_iff key item
      refine Iff.trans ⟨fun h => ?_, fun h => ?_⟩ (or_iff_right hs).symm
      · cases h with
        | sequence _ h => exact hitems.mp h
      · exact .sequence hs' (hitems.mpr h)
termination_by sizeOf value
decreasing_by
  · have := List.sizeOf_lt_of_mem he
    obtain ⟨itemKey, item⟩ := e
    simp only [Prod.mk.sizeOf_spec, LogValue.dict.sizeOf_spec] at this ⊢
    omega
  · have := List.sizeOf_lt_of_mem hi
    simp only [LogValue.sequence.sizeOf_spec]
    omega

/-- An email address as the key of a mapping. -/
theorem keys_are_not_redacted :
    ¬Redacted .plain .ascii "metadata" (.dict [("user@example.com", .str "seen")])
      (redactValue .plain .ascii "metadata" (.dict [("user@example.com", .str "seen")])) := by
  have hkey : isSensitive .plain "metadata" = false := by decide +kernel
  have hitem : isSensitive .plain "user@example.com" = false := by decide +kernel
  have htext : redactText .ascii "user@example.com" = "[REDACTED_EMAIL]" := by decide +kernel
  have hout : redactValue .plain .ascii "metadata" (.dict [("user@example.com", .str "seen")]) =
      .obj [("user@example.com", .str (redactText .ascii "seen"))] := by
    simp [redactValue, redactItems, hkey, hitem, Json.setField]
  rw [hout]
  intro h
  cases h with
  | dict _ h =>
    cases h with
    | cons hshown =>
      rcases hshown with hshown | hshown
      · exact absurd hshown (by decide)
      · rw [htext] at hshown
        exact absurd hshown (by decide)

end Ticketing.Logging
