import Ticketing.Services.TicketCollaboration

/-!
# What an upload is accepted for

The validation of an upload is streamed: a look at the first chunk, then a running total and an
incremental decoder over the first chunk put back in front of the others, then the decoder's end.

* `delivered` is the stream the endpoint makes of a content: chunks of 64 KiB.
* `Acceptable` is a condition on the content alone: it is not empty and within the limit, begins
  with the signature of its type, and is UTF-8 without NUL if it is a text.

Results:
* `boundedFrom_spec`: what `bounded_chunks` lets through and what it raises, for any cutting of
  the content into chunks.
* **`validate_delivered`**: for a valid file name and content type, the stream of the endpoint is
  accepted exactly if its content is `Acceptable`, and else ends in an attachment error.
* `checkKey_objectKey`: the storage accepts the key of every upload.
-/

namespace Ticketing

open Lib (Utf8.decode Utf8.encode Utf8.decode_append Utf8.decode_eq_some_iff)

/-- The errors of an upload that is refused for its content. -/
def Exn.isAttachmentError : Exn → Bool
  | attachmentFilenameInvalid | attachmentContentTypeInvalid | attachmentEmpty
  | attachmentTooLarge => true
  | _ => false

namespace TicketCollaborationService

/-- `while chunk := await file.read(64 * 1024): yield chunk`. -/
def delivered (content : Bytes) : ChunkStream :=
  ⟨LocalAttachmentStorage.readLoop (64 * 1024) content.length content, none⟩

/-- The content alone: its length, its first bytes and, of a text, all of them. -/
structure Acceptable (limit : Nat) (contentType : String) (content : Bytes) : Prop where
  nonempty : 0 < content.length
  bounded : content.length ≤ limit
  signed : ∃ bytes, signature contentType = some bytes ∧ bytes <+: content
  text : contentType = "text/plain" → 0 ∉ content ∧ ∃ cs, content = Utf8.encode cs

/-! ## The stream -/

/-- What the decoder makes of the bytes after those in its buffer: a text without NUL, at the end of
which nothing is unfinished. -/
def TextOk (buffer content : Bytes) : Prop :=
  0 ∉ content ∧ ∃ cs, Utf8.decode false buffer content = some (cs, [])

theorem textOk_nil {buffer : Bytes} : TextOk buffer [] ↔ buffer = [] := by
  simp [TextOk, Utf8.decode]

/-- A chunk and what follows it. -/
theorem textOk_append {buffer chunk rest : Bytes} :
    TextOk buffer (chunk ++ rest) ↔
      ∃ buffer', checkText true buffer chunk = .ok buffer' ∧ TextOk buffer' rest := by
  rw [TextOk, Utf8.decode_append, checkText, if_pos rfl]
  by_cases h0 : 0 ∈ chunk
  · simp [h0]
  · rw [if_neg h0]
    cases hd : Utf8.decode false buffer chunk with
    | none => simp
    | some p =>
      obtain ⟨cs, buffer'⟩ := p
      simp only [Option.bind_some, Option.map_eq_some_iff, Except.ok.injEq, exists_eq_left',
        TextOk, List.mem_append, not_or]
      constructor
      · rintro ⟨⟨-, hr⟩, ds, ⟨es, b⟩, hdec, he⟩
        obtain ⟨-, rfl⟩ := Prod.mk.inj he
        exact ⟨hr, es, hdec⟩
      · rintro ⟨hr, es, hdec⟩
        exact ⟨⟨h0, hr⟩, cs ++ es, (es, []), hdec, rfl⟩

theorem checkText_false (buffer chunk : Bytes) : checkText false buffer chunk = .ok buffer := rfl

theorem checkText_error {text : Bool} {buffer chunk : Bytes} {e : Exn}
    (h : checkText text buffer chunk = .error e) : e = .attachmentContentTypeInvalid := by
  unfold checkText at h
  split at h
  · split at h
    · cases h; rfl
    · split at h <;> cases h; rfl
  · cases h

/-- What the rest of a stream has to be, after `total` bytes. -/
def RestOk (limit : Nat) (text : Bool) (total : Nat) (buffer content : Bytes) : Prop :=
  total + content.length ≤ limit ∧ (text = true → TextOk buffer content)

/-- **The bounded stream**: it yields all chunks without raising exactly if the content is within
its bounds, wherever it is cut; what it raises is an error of the upload. -/
theorem boundedFrom_spec (limit : Nat) (text : Bool) (chunks : List Bytes) (total : Nat)
    (buffer : Bytes) (ht : total ≤ limit) :
    (RestOk limit text total buffer chunks.flatten ∧
      boundedFrom limit text none total buffer chunks = ⟨chunks, none⟩) ∨
    ¬RestOk limit text total buffer chunks.flatten ∧
      ∃ cs e, boundedFrom limit text none total buffer chunks = ⟨cs, some e⟩ ∧
        e.isAttachmentError = true := by
  induction chunks generalizing total buffer with
  | nil =>
    by_cases h : text = true ∧ buffer ≠ []
    · refine .inr ⟨fun hok => ?_, [], .attachmentContentTypeInvalid, ?_, rfl⟩
      · exact h.2 (textOk_nil.mp (hok.2 h.1))
      · rw [boundedFrom, if_pos h]
    · refine .inl ⟨⟨by simpa using ht, fun htext => textOk_nil.mpr ?_⟩, ?_⟩
      · by_contra hb
        exact h ⟨htext, hb⟩
      · rw [boundedFrom, if_neg h]
  | cons chunk rest ih =>
    rw [boundedFrom, List.flatten_cons]
    by_cases hlimit : limit < total + chunk.length
    · rw [if_pos hlimit]
      refine .inr ⟨fun hok => ?_, [], .attachmentTooLarge, rfl, rfl⟩
      have := hok.1
      rw [List.length_append] at this
      omega
    rw [if_neg hlimit]
    cases hc : checkText text buffer chunk with
    | error e =>
      refine .inr ⟨fun hok => ?_, [], e, rfl, by rw [checkText_error hc]; rfl⟩
      cases text with
      | false => rw [checkText_false] at hc; cases hc
      | true =>
        obtain ⟨buffer', hb, -⟩ := textOk_append.mp (hok.2 rfl)
        rw [hb] at hc
        cases hc
    | ok buffer' =>
      have hrest : RestOk limit text total buffer (chunk ++ rest.flatten) ↔
          RestOk limit text (total + chunk.length) buffer' rest.flatten := by
        rw [RestOk, RestOk, List.length_append, Nat.add_assoc]
        refine and_congr_right fun _ => ?_
        cases text with
        | false => simp
        | true => simp [textOk_append, hc]
      rw [hrest]
      rcases ih (total + chunk.length) buffer' (by omega) with ⟨hok, he⟩ | ⟨hno, cs, e, he, hatt⟩
      · exact .inl ⟨hok, by simp only [he]; rfl⟩
      · exact .inr ⟨hno, chunk :: cs, e, by simp only [he]; rfl, hatt⟩

/-- A bounded stream that raises nothing has passed on all there was. -/
theorem boundedFrom_whole {limit : Nat} {text : Bool} {failure : Option Exn} {chunks : List Bytes}
    {total : Nat} {buffer : Bytes}
    (h : (boundedFrom limit text failure total buffer chunks).failure = none) :
    failure = none ∧ (boundedFrom limit text failure total buffer chunks).chunks = chunks := by
  induction chunks generalizing total buffer with
  | nil =>
    cases failure with
    | none => exact ⟨rfl, rfl⟩
    | some e => cases h
  | cons chunk rest ih =>
    rw [boundedFrom] at h ⊢
    split_ifs at h ⊢ with hlimit
    cases hc : checkText text buffer chunk with
    | error e => simp only [hc] at h; cases h
    | ok buffer' =>
      simp only [hc] at h ⊢
      obtain ⟨hf, hrest⟩ := ih h
      exact ⟨hf, congrArg (List.cons chunk) hrest⟩

theorem bind_eq_ok {α β : Type} {x : Except Exn α} {f : α → Except Exn β} {b : β}
    (h : x.bind f = .ok b) : ∃ a, x = .ok a ∧ f a = .ok b := by
  cases x with
  | error e => cases h
  | ok a => exact ⟨a, rfl, h⟩

theorem firstChunk_eq_ok {chunks iterator : ChunkStream} {first : Bytes}
    (h : firstChunk chunks = .ok (first, iterator)) :
    first ≠ [] ∧ chunks = ⟨first :: iterator.chunks, iterator.failure⟩ := by
  obtain ⟨chunks, failure⟩ := chunks
  cases chunks with
  | nil => cases failure <;> cases h
  | cons c rest =>
    by_cases hc : c = []
    · have : firstChunk ⟨c :: rest, failure⟩ = .error .attachmentEmpty := if_pos hc
      rw [this] at h
      cases h
    · have : firstChunk ⟨c :: rest, failure⟩ = .ok (c, ⟨rest, failure⟩) := if_neg hc
      rw [this] at h
      cases h
      exact ⟨hc, rfl⟩

/-- **What is stored whole is the upload's content**, and not empty. -/
theorem content_of_validate {P : Platform} {S : TicketCollaborationService} {upload : Upload}
    {safeFilename mediaType : String} {stream : ChunkStream}
    (h : S.validate P upload = .ok (safeFilename, mediaType, stream)) (hs : stream.failure = none) :
    stream.content = upload.chunks.content ∧ 0 < stream.content.length := by
  obtain ⟨⟨name, type⟩, -, h⟩ := bind_eq_ok h
  obtain ⟨⟨first, iterator⟩, hf, h⟩ := bind_eq_ok h
  obtain ⟨u, -, h⟩ := bind_eq_ok h
  obtain ⟨hfirst, hchunks⟩ := firstChunk_eq_ok hf
  obtain ⟨-, rfl⟩ := Prod.mk.inj (Prod.mk.inj (Except.ok.inj h)).2
  have hcontent : (boundedChunks S.maxAttachmentSizeBytes type (prepend first iterator)).content =
      (first :: iterator.chunks).flatten := by
    rw [ChunkStream.content, boundedChunks, (boundedFrom_whole hs).2, prepend, List.flatten_cons,
      List.flatten_cons, List.flatten_filter_ne_nil]
  have := List.length_pos_iff.mpr hfirst
  rw [hcontent, hchunks]
  exact ⟨rfl, by rw [List.flatten_cons, List.length_append]; omega⟩

/-! ## The key of an object -/

/-- The storage accepts the keys of uploads. -/
theorem valid_objectKey (tenantId ticketId id : UUID) :
    LocalAttachmentStorage.Valid (objectKey tenantId ticketId id) := by
  have hsegment (u : UUID) : LocalAttachmentStorage.IsSegment u.digits := by
    refine ⟨fun h => ?_, fun c hc => ?_⟩
    · have := u.length_digits
      rw [h] at this
      cases this
    · have hall : "0123456789abcdef".toList.all LocalAttachmentStorage.isKeyChar = true := by rfl
      exact List.all_eq_true.mp hall c (UUID.mem_digits hc)
  refine ⟨[tenantId.digits, ticketId.digits, id.digits], by simp, fun s hs => ?_, ?_⟩
  · simp only [List.mem_cons, List.not_mem_nil, or_false] at hs
    rcases hs with h | h | h <;> exact h ▸ hsegment _
  · simp [objectKey, UUID.hex, List.intercalate]

/-- So `write` and `delete` of an upload go ahead with its key. -/
theorem checkKey_objectKey (tenantId ticketId id : UUID) :
    AttachmentStorage.checkKey (objectKey tenantId ticketId id) = pure () := by
  have hmatch := (LocalAttachmentStorage.fullmatch_iff_valid _).mpr
    (valid_objectKey tenantId ticketId id)
  rw [AttachmentStorage.checkKey, if_pos hmatch]

/-! ## The chunks of the endpoint -/

/-- A signature shows in the first chunk. -/
theorem hasSignature_iff {contentType : String} {content : Bytes} :
    (signature contentType).any (·.isPrefixOf (content.take (64 * 1024))) = true ↔
      ∃ bytes, signature contentType = some bytes ∧ bytes <+: content := by
  have hlen : ∀ bytes ∈ signature contentType, bytes.length ≤ 64 * 1024 := by
    intro bytes h
    unfold signature at h
    split_ifs at h <;> cases h <;> decide
  simp only [Option.any_eq_true, List.isPrefixOf_iff_prefix]
  refine exists_congr fun bytes => and_congr_right fun h => ⟨fun hp => ?_, fun hp => ?_⟩
  · exact hp.trans (List.take_prefix _ _)
  · rw [List.prefix_take_iff]
    exact ⟨hp, hlen bytes h⟩

/-- What is delivered of a content that is not empty: a first chunk and more, none of them
empty. -/
theorem delivered_cons {content : Bytes} (hne : content ≠ []) :
    ∃ rest, delivered content = ⟨content.take (64 * 1024) :: rest, none⟩ ∧
      content.take (64 * 1024) ≠ [] ∧ (∀ chunk ∈ rest, chunk ≠ []) ∧
      (content.take (64 * 1024) :: rest).flatten = content := by
  have hflat := LocalAttachmentStorage.flatten_readLoop (by decide : 1 ≤ 64 * 1024)
    (Nat.le_refl content.length)
  have hall := fun chunk => @LocalAttachmentStorage.ne_nil_of_mem_readLoop (64 * 1024)
    content.length content chunk
  obtain ⟨n, hn⟩ : ∃ n, content.length = n + 1 :=
    ⟨content.length - 1, by have := List.length_pos_iff.mpr hne; omega⟩
  have htake : content.take (64 * 1024) ≠ [] := by simpa using hne
  rw [hn, LocalAttachmentStorage.readLoop, if_neg htake] at hflat hall
  refine ⟨_, ?_, htake, fun chunk h => hall chunk (List.mem_cons_of_mem _ h), hflat⟩
  rw [delivered, hn, LocalAttachmentStorage.readLoop, if_neg htake]

variable {P : Platform} {S : TicketCollaborationService} {filename contentType : Option String}
variable {safeFilename mediaType : String}

/-- **Validation depends on the content alone**: for a valid file name and content type, what the
endpoint delivers is passed on whole exactly if the content is acceptable. -/
theorem validate_delivered (hm : validateMetadata P filename contentType =
    .ok (safeFilename, mediaType)) (content : Bytes) :
    (Acceptable S.maxAttachmentSizeBytes mediaType content ∧
      ∃ chunks, chunks.flatten = content ∧
        S.validate P ⟨filename, contentType, delivered content⟩ =
          .ok (safeFilename, mediaType, ⟨chunks, none⟩)) ∨
    ¬Acceptable S.maxAttachmentSizeBytes mediaType content ∧
      ((∃ e, S.validate P ⟨filename, contentType, delivered content⟩ = .error e ∧
          e.isAttachmentError = true) ∨
        ∃ chunks e, S.validate P ⟨filename, contentType, delivered content⟩ =
          .ok (safeFilename, mediaType, ⟨chunks, some e⟩) ∧ e.isAttachmentError = true) := by
  by_cases hne : content = []
  · subst hne
    refine .inr ⟨fun h => absurd h.nonempty (by simp), .inl ⟨.attachmentEmpty, ?_, rfl⟩⟩
    simp only [validate, hm]
    rfl
  obtain ⟨rest, hd, hfirst, hrest, hflat⟩ := delivered_cons hne
  have hpre : prepend (content.take (64 * 1024)) ⟨rest, none⟩ =
      ⟨content.take (64 * 1024) :: rest, none⟩ := by
    rw [prepend, List.filter_eq_self.mpr fun chunk h => by simpa using hrest chunk h]
  have hvalidate : S.validate P ⟨filename, contentType, delivered content⟩ =
      (validateSignature mediaType (content.take (64 * 1024))).bind fun _ =>
        .ok (safeFilename, mediaType, boundedFrom S.maxAttachmentSizeBytes
          (mediaType = "text/plain") none 0 [] (content.take (64 * 1024) :: rest)) := by
    have hf : firstChunk ⟨content.take (64 * 1024) :: rest, none⟩ =
        .ok (content.take (64 * 1024), ⟨rest, none⟩) := if_neg hfirst
    rw [validate, hm, hd]
    show (firstChunk ⟨content.take (64 * 1024) :: rest, none⟩).bind _ = _
    rw [hf]
    show (validateSignature _ _).bind _ = _
    rw [hpre]
    rfl
  have hspec := boundedFrom_spec S.maxAttachmentSizeBytes (mediaType = "text/plain")
    (content.take (64 * 1024) :: rest) 0 [] (Nat.zero_le _)
  rw [hflat] at hspec
  have hiff : Acceptable S.maxAttachmentSizeBytes mediaType content ↔
      (∃ bytes, signature mediaType = some bytes ∧ bytes <+: content) ∧
        RestOk S.maxAttachmentSizeBytes (mediaType = "text/plain") 0 [] content := by
    constructor
    · exact fun h => ⟨h.signed, by simpa using h.bounded, fun ht => by
        obtain ⟨h0, cs, hcs⟩ := h.text (of_decide_eq_true ht)
        exact ⟨h0, cs, Utf8.decode_eq_some_iff.mpr hcs⟩⟩
    · rintro ⟨hsig, hb, ht⟩
      refine ⟨List.length_pos_iff.mpr hne, by simpa using hb, hsig, fun he => ?_⟩
      obtain ⟨h0, cs, hcs⟩ := ht (decide_eq_true he)
      exact ⟨h0, cs, Utf8.decode_eq_some_iff.mp hcs⟩
  rw [hvalidate, hiff, validateSignature]
  by_cases hsig : (signature mediaType).any (·.isPrefixOf (content.take (64 * 1024))) = true
  · rw [if_pos hsig]
    have hsigned := hasSignature_iff.mp hsig
    rcases hspec with ⟨hok, he⟩ | ⟨hno, cs, e, he, hatt⟩
    · exact .inl ⟨⟨hsigned, hok⟩, _, hflat, by rw [he]; rfl⟩
    · exact .inr ⟨fun h => hno h.2, .inr ⟨cs, e, by rw [he]; rfl, hatt⟩⟩
  · rw [if_neg hsig]
    exact .inr ⟨fun h => hsig (hasSignature_iff.mpr h.1), .inl ⟨_, rfl, rfl⟩⟩

end TicketCollaborationService

end Ticketing
