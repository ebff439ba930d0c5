import Ticketing.Lib.Base64
import Ticketing.Lib.Isoformat
import Ticketing.Lib.Encoding
import Ticketing.Model.World

/-!
# `services/ticket_cursor.py`

A cursor is the base 64 of a JSON object with the fields `created_at` and `ticket_id`, its padding
stripped.

* `encodeTicketCursor` writes it. `decodeTicketCursor` puts the text through four decoders,
  `base64.b64decode` (`decodeBase64`), `json.loads` (`payload`), `datetime.fromisoformat`
  (`datetime`) and `UUID` (`uuid`), inside one `try`; `isCaught` are the exceptions its handler
  names.
* `Clean` is the promise: a cursor or `InvalidTicketCursorError`.

Results:
* **`decode_clean_iff`**: nothing but a cursor or `InvalidTicketCursorError` comes out of a text,
  except for a well-formed object whose `ticket_id` is neither a string nor null (`BadId`): `UUID`
  calls string methods on it, and nothing catches the `AttributeError` (`numeric_id_escapes`).
* **`cursor_codec_round_trip`**: what `encodeTicketCursor` writes is read back, is made of
  characters that a URL carries as they are, and different cursors have different texts.

Assumed: a `list` request takes at most 500 characters, which nest no deeper than `json.loads`
goes.
-/

namespace Ticketing

open Lib (Json)
open Lib.Datetime (Stamp fromisoformat)

structure TicketCursor where
  createdAt : Stamp
  ticketId : UUID
  deriving DecidableEq, Repr

namespace TicketCursor

def encodeTicketCursor (cursor : TicketCursor) : String :=
  let payload := Json.dumps true
    (.obj [("created_at", .str cursor.createdAt.isoformat),
      ("ticket_id", .str cursor.ticketId.str)])
  String.ofList ((Lib.Base64.urlsafeEncode (Lib.Utf8.encode payload.toList)).rdropWhile (· = '='))

/-- `base64.b64decode(encoded + padding, altchars=b"-_", validate=True)`. -/
def decodeBase64 (encoded : String) : Option Bytes :=
  let cs := encoded.toList
  Lib.Base64.decode (cs ++ List.replicate (Lib.Base64.padding cs.length) '=')

/-- The JSON value in a cursor. -/
def payload (encoded : String) : Option Json := (decodeBase64 encoded).bind Json.loadsBytes

/-- `datetime.fromisoformat(value)`. -/
def datetime : Json → Except Exn Stamp
  | .str text => match fromisoformat text with
    | some stamp => .ok stamp
    | none => .error .valueError
  | _ => .error .typeError

/-- `UUID(value)`: its first statement on a value that is not `None` is `value.replace(…)`. -/
def uuid : Json → Except Exn UUID
  | .str text => match UUID.parse text with
    | some id => .ok id
    | none => .error .valueError
  | .null => .error .typeError
  | _ => .error .attributeError

/-- `set(payload) == {"created_at", "ticket_id"}`. -/
def HasKeys (fields : List (String × Json)) : Prop :=
  ∀ key, key ∈ fields.map Prod.fst ↔ key = "created_at" ∨ key = "ticket_id"

instance (fields : List (String × Json)) : Decidable (HasKeys fields) :=
  decidable_of_iff
    ((∀ key ∈ fields.map Prod.fst, key = "created_at" ∨ key = "ticket_id") ∧
      "created_at" ∈ fields.map Prod.fst ∧ "ticket_id" ∈ fields.map Prod.fst)
    ⟨fun h key => ⟨h.1 key, by rintro (rfl | rfl); exacts [h.2.1, h.2.2]⟩,
      fun h => ⟨fun key => (h key).mp, (h _).mpr (.inl rfl), (h _).mpr (.inr rfl)⟩⟩

/-- `payload[key]`. -/
def field (fields : List (String × Json)) (key : String) : Except Exn Json :=
  match fields.lookup key with
  | some value => .ok value
  | none => .error .keyError

/-- The body of the `try`. -/
def read (encoded : String) : Except Exn TicketCursor :=
  match payload encoded with
  | some (.obj fields) => do
    if ¬ HasKeys fields then throw .valueError
    let createdAt ← datetime (← field fields "created_at")
    let ticketId ← uuid (← field fields "ticket_id")
    if createdAt.utcoffset = none then throw .valueError
    return ⟨createdAt, ticketId⟩
  | _ => .error .valueError

/-- `except (binascii.Error, json.JSONDecodeError, KeyError, TypeError, ValueError)`. -/
def isCaught : Exn → Bool
  | .keyError | .typeError | .valueError => true
  | _ => false

def decodeTicketCursor (encoded : String) : Except Exn TicketCursor :=
  match read encoded with
  | .ok cursor => .ok cursor
  | .error e => .error (if isCaught e then .invalidTicketCursor else e)

/-! ## What comes out of it -/

/-- A cursor, or `InvalidTicketCursorError`. -/
def Clean (r : Except Exn TicketCursor) : Prop :=
  (∃ cursor, r = .ok cursor) ∨ r = .error .invalidTicketCursor

/-- The value has string methods, or `UUID` refuses it before it uses one. -/
def IsText : Json → Prop
  | .str _ | .null => True
  | _ => False

theorem datetime_error {value : Json} {e : Exn} (h : datetime value = .error e) :
    isCaught e = true := by
  unfold datetime at h
  split at h
  · split at h
    · cases h
    · cases h; rfl
  · cases h; rfl

theorem uuid_error {value : Json} {e : Exn} (ht : IsText value) (h : uuid value = .error e) :
    isCaught e = true := by
  cases value with
  | str text =>
    unfold uuid at h
    dsimp only at h
    split at h
    · cases h
    · cases h; rfl
  | null => cases h; rfl
  | bool _ | int _ | float _ | arr _ | obj _ => exact ht.elim

theorem uuid_of_not_isText {value : Json} (ht : ¬ IsText value) :
    uuid value = .error .attributeError := by
  cases value with
  | str _ | null => exact absurd trivial ht
  | bool _ | int _ | float _ | arr _ | obj _ => rfl

theorem field_eq {fields : List (String × Json)} {key : String} (h : key ∈ fields.map Prod.fst) :
    ∃ value, fields.lookup key = some value ∧ field fields key = .ok value := by
  have hs : (fields.lookup key).isSome = true := by
    rw [List.lookup_isSome_iff]
    obtain ⟨p, hp, rfl⟩ := List.mem_map.mp h
    exact ⟨p, hp, by simp⟩
  obtain ⟨value, hv⟩ := Option.isSome_iff_exists.mp hs
  exact ⟨value, hv, by rw [field, hv]⟩

/-- The text holds an object as `encode_ticket_cursor` writes it, with a valid time, but an id that
is neither a string nor null. -/
def BadId (encoded : String) : Prop :=
  ∃ fields created id, payload encoded = some (.obj fields) ∧ HasKeys fields ∧
    fields.lookup "created_at" = some (.str created) ∧ (fromisoformat created).isSome ∧
    fields.lookup "ticket_id" = some id ∧ ¬ IsText id

/-- What is read from an object with the two keys. -/
theorem read_of_keys {encoded : String} {fields : List (String × Json)}
    (hp : payload encoded = some (.obj fields)) (hk : HasKeys fields) :
    ∃ created id, fields.lookup "created_at" = some created ∧
      fields.lookup "ticket_id" = some id ∧
      read encoded = (do
        let createdAt ← datetime created
        let ticketId ← uuid id
        if createdAt.utcoffset = none then throw .valueError
        return ⟨createdAt, ticketId⟩) := by
  obtain ⟨created, hc, hcr⟩ := field_eq ((hk "created_at").mpr (.inl rfl))
  obtain ⟨id, hi, hir⟩ := field_eq ((hk "ticket_id").mpr (.inr rfl))
  refine ⟨created, id, hc, hi, ?_⟩
  rw [read, hp]
  simp only [hk, not_true_eq_false, if_false, hcr, hir]
  rfl

theorem read_of_badId {encoded : String} (h : BadId encoded) :
    read encoded = .error .attributeError := by
  obtain ⟨fields, created, id, hp, hk, hc, hs, hi, ht⟩ := h
  obtain ⟨created', id', hc', hi', hr⟩ := read_of_keys hp hk
  obtain rfl : created' = .str created := Option.some.inj (hc'.symm.trans hc)
  obtain rfl : id' = id := Option.some.inj (hi'.symm.trans hi)
  obtain ⟨stamp, hstamp⟩ := Option.isSome_iff_exists.mp hs
  have hd : datetime (.str created) = .ok stamp := by rw [datetime, hstamp]
  rw [hr, hd, uuid_of_not_isText ht]
  rfl

theorem isCaught_of_read {encoded : String} {e : Exn} (hn : ¬ BadId encoded)
    (h : read encoded = .error e) : isCaught e = true := by
  by_cases hobj : ∃ fields, payload encoded = some (.obj fields)
  swap
  · -- not an object: the `ValueError` of a decoder, or the one raised for it
    unfold read at h
    split at h
    · exact absurd ⟨_, ‹_›⟩ hobj
    · cases h; rfl
  obtain ⟨fields, hp⟩ := hobj
  by_cases hk : HasKeys fields
  swap
  · rw [read, hp] at h
    simp only [hk, not_false_eq_true, if_true] at h
    cases h; rfl
  obtain ⟨created, id, hc, hi, hr⟩ := read_of_keys hp hk
  rw [hr] at h
  cases hd : datetime created with
  | error e' =>
    rw [hd] at h
    cases h
    exact datetime_error hd
  | ok stamp =>
    rw [hd] at h
    cases hu : uuid id with
    | error e' =>
      rw [hu] at h
      cases h
      by_cases ht : IsText id
      · exact uuid_error ht hu
      · refine absurd ?_ hn
        cases created with
        | str text =>
          refine ⟨fields, text, id, hp, hk, hc, ?_, hi, ht⟩
          unfold datetime at hd
          dsimp only at hd
          split at hd
          · rename_i hsome
            rw [hsome]
            rfl
          · cases hd
        | null | bool _ | int _ | float _ | arr _ | obj _ => cases hd
    | ok ticketId =>
      rw [hu] at h
      by_cases hoff : stamp.utcoffset = none
      · simp only [bind, Except.bind, hoff, if_true] at h
        cases h; rfl
      · simp only [bind, Except.bind, hoff, if_false] at h
        cases h

/-- **A malformed cursor is refused cleanly exactly when** it does not hold a well-formed object
whose id is neither a string nor null. -/
theorem decode_clean_iff (encoded : String) :
    Clean (decodeTicketCursor encoded) ↔ ¬ BadId encoded := by
  constructor
  · intro hclean hbad
    rw [decodeTicketCursor, read_of_badId hbad] at hclean
    rcases hclean with ⟨cursor, h⟩ | h <;> cases h
  · intro hn
    rw [decodeTicketCursor]
    cases hr : read encoded with
    | ok cursor => exact .inl ⟨cursor, rfl⟩
    | error e =>
      refine .inr ?_
      simp only [isCaught_of_read hn hr, if_true]

/-- `{"created_at":"2026-01-01T00:00:00+00:00","ticket_id":5}`: the `AttributeError` of `UUID(5)`
comes out. -/
theorem numeric_id_escapes :
    ¬ ∀ encoded : String, encoded.length ≤ 500 → Clean (decodeTicketCursor encoded) := by
  intro hall
  have hclean := hall
    "eyJjcmVhdGVkX2F0IjoiMjAyNi0wMS0wMVQwMDowMDowMCswMDowMCIsInRpY2tldF9pZCI6NX0" (by decide)
  have herr : decodeTicketCursor
      "eyJjcmVhdGVkX2F0IjoiMjAyNi0wMS0wMVQwMDowMDowMCswMDowMCIsInRpY2tldF9pZCI6NX0" =
      .error .attributeError := by decide +kernel
  rw [herr] at hclean
  rcases hclean with ⟨cursor, h⟩ | h <;> cases h

/-! ## What is encoded decodes -/

/-- The object in the text of a cursor. -/
def fields (cursor : TicketCursor) : List (String × Json) :=
  [("created_at", .str cursor.createdAt.isoformat), ("ticket_id", .str cursor.ticketId.str)]

theorem textual_fields (cursor : TicketCursor) : Json.Textual (.obj (fields cursor)) := by
  exact ⟨(by decide : ["created_at", "ticket_id"].Nodup), trivial, trivial, trivial⟩

theorem loads_encode (cursor : TicketCursor) :
    Json.loadsBytes (Lib.Utf8.encode (Json.dumps true (.obj (fields cursor))).toList) =
      some (.obj (fields cursor)) := by
  obtain ⟨rest, htext⟩ : ∃ rest, (Json.dumps true (.obj (fields cursor))).toList =
      '{' :: '"' :: rest := by
    exact ⟨_, by simp [Json.dumps, fields, Json.write, Json.writeFields, Json.quote]; rfl⟩
  have hdecode : Lib.Encoding.decodeJson
      (Lib.Utf8.encode (Json.dumps true (.obj (fields cursor))).toList) =
      some (Json.dumps true (.obj (fields cursor))).toList := by
    rw [← Lib.Utf8.decodeAll_encode true, htext]
    exact Lib.Encoding.decodeJson_object _
  rw [Json.loadsBytes, hdecode, Option.bind_some, String.ofList_toList,
    Json.loads_dumps true (textual_fields cursor)]

/-- The digits of a cursor's text. -/
theorem toList_encode (cursor : TicketCursor) : (encodeTicketCursor cursor).toList =
    (Lib.Base64.sextets (Lib.Utf8.encode (Json.dumps true (.obj (fields cursor))).toList)).map
      Lib.Base64.digit := by
  rw [← Lib.Base64.rdropWhile_urlsafeEncode]
  exact String.toList_ofList

theorem payload_encode (cursor : TicketCursor) :
    payload (encodeTicketCursor cursor) = some (.obj (fields cursor)) := by
  generalize hdata : Lib.Utf8.encode (Json.dumps true (.obj (fields cursor))).toList = data
  have hload := loads_encode cursor
  rw [hdata] at hload
  have hdigits := toList_encode cursor
  rw [hdata] at hdigits
  rw [payload, decodeBase64, hdigits, List.length_map, Lib.Base64.decode_padded, Option.bind_some,
    hload]

/-- **A cursor decodes to itself.** -/
theorem decode_encode {cursor : TicketCursor} (h : cursor.createdAt.Valid) {offset : Int}
    (ho : cursor.createdAt.utcoffset = some offset) :
    decodeTicketCursor (encodeTicketCursor cursor) = .ok cursor := by
  have hread : read (encodeTicketCursor cursor) = .ok cursor := by
    have hkeys : HasKeys (fields cursor) := fun key => by simp [fields]
    obtain ⟨created, id, hc, hi, hr⟩ := read_of_keys (payload_encode cursor) hkeys
    obtain rfl : .str cursor.createdAt.isoformat = created := Option.some.inj hc
    obtain rfl : .str cursor.ticketId.str = id := Option.some.inj hi
    have hstamp : datetime (.str cursor.createdAt.isoformat) = .ok cursor.createdAt := by
      rw [datetime, Lib.Datetime.fromisoformat_isoformat h ho]
    have hid : uuid (.str cursor.ticketId.str) = .ok cursor.ticketId := by
      rw [uuid, UUID.parse_str]
    rw [hr, hstamp, hid]
    simp only [bind, Except.bind, ho, reduceCtorEq, if_false]
    rfl
  rw [decodeTicketCursor, hread]

/-- A cursor's text needs no escaping in a URL; there is no padding in it. -/
theorem encode_urlsafe (cursor : TicketCursor) : ∀ c ∈ (encodeTicketCursor cursor).toList,
    c.isAlphanum = true ∨ c = '-' ∨ c = '_' := by
  intro c hc
  rw [toList_encode] at hc
  obtain ⟨n, hn, rfl⟩ := List.mem_map.mp hc
  exact Lib.Base64.digit_urlsafe (Lib.Base64.sextets_lt _ n hn)

/-- A text holds the two texts of one cursor only. -/
theorem encode_injective {cursor cursor' : TicketCursor}
    (h : encodeTicketCursor cursor = encodeTicketCursor cursor') :
    cursor.createdAt.isoformat = cursor'.createdAt.isoformat ∧
      cursor.ticketId = cursor'.ticketId := by
  have hpayload := payload_encode cursor
  rw [h, payload_encode] at hpayload
  have hfields : fields cursor' = fields cursor := Json.obj.inj (Option.some.inj hpayload)
  simp only [fields, List.cons.injEq, Prod.mk.injEq, Json.str.injEq] at hfields
  exact ⟨hfields.1.2.symm, UUID.str_injective hfields.2.1.2.symm⟩

/-- **The cursor codec goes round**: a cursor with an aware time comes back with the same instant
and the same id, its text is URL-safe and not padded, and two cursors of one text are written
alike. -/
theorem cursor_codec_round_trip (cursor : TicketCursor) (hvalid : cursor.createdAt.Valid)
    (haware : cursor.createdAt.utcoffset ≠ none) :
    (∃ decoded, decodeTicketCursor (encodeTicketCursor cursor) = .ok decoded ∧
      decoded.createdAt.instant = cursor.createdAt.instant ∧ decoded.ticketId = cursor.ticketId) ∧
    (∀ c ∈ (encodeTicketCursor cursor).toList,
      (c.isAlphanum = true ∨ c = '-' ∨ c = '_') ∧ c ≠ '=') ∧
    ∀ cursor', encodeTicketCursor cursor = encodeTicketCursor cursor' →
      (cursor.createdAt.isoformat, cursor.ticketId) =
        (cursor'.createdAt.isoformat, cursor'.ticketId) := by
  obtain ⟨offset, ho⟩ := Option.ne_none_iff_exists'.mp haware
  refine ⟨⟨cursor, decode_encode hvalid ho, rfl, rfl⟩, fun c hc => ?_, fun cursor' h => ?_⟩
  · have hsafe := encode_urlsafe cursor c hc
    refine ⟨hsafe, ?_⟩
    rintro rfl
    revert hsafe
    decide
  · obtain ⟨hstamp, hid⟩ := encode_injective h
    rw [hstamp, hid]

/-- The last microsecond of 29 February 2000, west of Greenwich. -/
theorem cursor_codec_round_trip_leap :
    let cursor : TicketCursor := ⟨⟨730178 * 86400000000 + 86399999999, some (-12600000000)⟩, 255⟩
    ∃ decoded, decodeTicketCursor (encodeTicketCursor cursor) = .ok decoded ∧
      decoded.createdAt.instant = cursor.createdAt.instant ∧
        decoded.ticketId = cursor.ticketId := by
  have hvalid : (⟨730178 * 86400000000 + 86399999999, some (-12600000000)⟩ : Stamp).Valid := by
    refine ⟨by decide, fun offset ho => ?_⟩
    cases ho
    decide
  exact (cursor_codec_round_trip ⟨⟨730178 * 86400000000 + 86399999999, some (-12600000000)⟩, 255⟩
    hvalid nofun).1

end TicketCursor

end Ticketing
