import Ticketing.Concurrency.Alone
import Ticketing.Services.Attachments

/-!
# Uploads that nothing disturbs

`TicketCollaborationService.upload_attachment` alone, with the storage and the database working,
on the content in chunks as the route delivers it (`delivered`).

* `FreshUpload`: the ids that `uuid4` is going to draw are in no object and no row yet.
* `Acceptable`, of `Services/Attachments.lean`, is what is asked of a content: it is not empty and
  not too large, it begins as its media type says, and a text is UTF-8 without NUL.

Results:
* `run_write`: what `AttachmentStorage.write` does with the stream of an upload. The object is
  there with the whole content, or the stream raises and nothing is.
* `run_record`: the row of the attachment is inserted and committed.
* `acceptance_depends_on_content`: for a file name and content type that pass, on a ticket the
  member may see, the upload succeeds exactly if its content is acceptable. Then the stored object
  is the content and `size_bytes` its length; else it raises an attachment error, and no object is
  left.

Left out: uploads in parallel and their faults, which `Uploads.lean` is about.
-/

namespace Ticketing

open Lib (Prog)
open TicketCollaborationService

/-! ## The storage -/

section Storage

variable {i random : Nat} {key : String} {W : World} {draws : List UUID}

theorem run_append (failure : Option Exn) (chunks : List Bytes) {objects : List StoredObject}
    {content : Bytes} (hk : ∀ x ∈ objects, x.key ≠ key) :
    (AttachmentStorage.append key failure chunks).run (alone i random)
        ({ W with objects := objects ++ [⟨key, i, content⟩] }, draws) =
      some (failure.elim (.ok ()) .error,
        ({ W with objects := objects ++ [⟨key, i, content ++ chunks.flatten⟩] }, draws)) := by
  induction chunks generalizing content with
  | nil =>
    rw [List.flatten_nil, List.append_nil]
    cases failure <;> rfl
  | cons chunk chunks ih =>
    have hmap : (objects ++ [(⟨key, i, content⟩ : StoredObject)]).map (fun x =>
        if x.key = key then { x with content := x.content ++ chunk } else x) =
        objects ++ [⟨key, i, content ++ chunk⟩] := by
      rw [List.map_append, List.map_congr_left fun x hx => if_neg (hk x hx)]
      simp
    have hstep : alone i random (.appendObject key chunk)
        ({ W with objects := objects ++ [⟨key, i, content⟩] }, draws) =
        some (.ok (), ({ W with objects := objects ++ [⟨key, i, content ++ chunk⟩] }, draws)) := by
      rw [← hmap]
      rfl
    show Prog.run _ (Prog.bind _ _) _ = _
    rw [Prog.run_bind, Prog.run_perform, hstep]
    rw [List.flatten_cons, ← List.append_assoc]
    exact ih

/-- **What `write` does alone**: the object is there with the content of the stream, or, where the
stream raises, nothing is. -/
theorem run_write (stream : ChunkStream) (hk : ∀ x ∈ W.objects, x.key ≠ key) :
    (AttachmentStorage.write key stream).run (alone i random) (W, draws) =
      match stream.failure with
      | none => some (.ok stream.content.length,
          ({ W with objects := W.objects ++ [⟨key, i, stream.content⟩] }, draws))
      | some e => some (.error e, (W, draws)) := by
  have hnone : W.object key = none := List.find?_eq_none.mpr fun x hx => by simpa using hk x hx
  have hcreate : alone i random (.createObject key) (W, draws) =
      some (.ok (), ({ W with objects := W.objects ++ [⟨key, i, []⟩] }, draws)) := by
    simp only [alone, opStep, hnone]
    rfl
  have happend := @run_append i random key W draws stream.failure stream.chunks W.objects [] hk
  rw [List.nil_append] at happend
  show Prog.run _ (Prog.bind _ _) _ = _
  rw [Prog.run_bind, Prog.run_perform, hcreate]
  show Prog.run _ (Prog.handle (Prog.bind _ _) _) _ = _
  rw [Prog.run_handle, Prog.run_bind, happend]
  cases stream.failure with
  | none => rfl
  | some e =>
    have hfilter : (W.objects ++ [(⟨key, i, stream.chunks.flatten⟩ : StoredObject)]).filter
        (·.key ≠ key) = W.objects := by
      rw [List.filter_append, List.filter_eq_self.mpr fun x hx => by simpa using hk x hx]
      simp
    have hunlink : alone i random (.unlinkObject key)
        ({ W with objects := W.objects ++ [⟨key, i, stream.chunks.flatten⟩] }, draws) =
        some (.ok (), (W, draws)) := by
      simp only [alone, opStep, World.file, World.awaiting, hfilter]
      rfl
    show Prog.run _ (Prog.bind (Prog.perform (Op.closeObject key true)) _) _ = _
    rw [Prog.run_bind, Prog.run_perform]
    show Prog.run _ (Prog.bind (Prog.perform (Op.unlinkObject key)) _) _ = _
    rw [Prog.run_bind, Prog.run_perform, hunlink]
    rfl

end Storage

/-! ## The row -/

/-- The row is committed as it is added, with the time of the transaction. -/
theorem run_record {i random : Nat} {W : World} {draws : List UUID} (h : Alone i [] W)
    (a : TicketAttachment)
    (hfresh : ∀ row ∈ W.store.db .ticketAttachments, row.id ≠ a.id ∧ row.objectKey ≠ a.objectKey) :
    ∃ τ W', (record a).run (alone i random) (W, draws) = some (.ok (), (W', draws)) ∧
      Alone i [] W' ∧ Beside none W W' ∧ W'.store.db .ticketAttachments =
        W.store.db .ticketAttachments ++ [{ a with createdAt := τ }] := by
  have hnew : ∀ k ∈ (Write.insert .ticketAttachments a).fresh, Db.present k W.store.db = false := by
    intro k hk
    rw [Write.fresh, Table.keys, Table.uniques, List.mem_cons, List.mem_singleton] at hk
    rcases hk with rfl | rfl
    · exact Db.present_row.mpr fun row hr => (hfresh row hr).1
    · refine Db.present_eq_false.mpr fun row hr => ?_
      show _ ∉ [Key.row _ _, Key.attachmentObjectKey row.objectKey]
      simpa using Ne.symm (hfresh row hr).2
  obtain ⟨τ, W₁, hwrite, hW₁, hs₁⟩ := h.write (c := { random }) rfl hnew
  obtain ⟨W₂, hcommit, hW₂, hdb, hb₂⟩ := hW₁.commit (c := { random }) rfl
  refine ⟨τ, W₂, ?_, hW₂, hs₁.beside.trans hb₂, ?_⟩
  · show Prog.run _ (Prog.handle (Prog.bind (Prog.perform _) fun _ => Prog.perform _) _) _ = _
    rw [Prog.run_handle, Prog.run_bind, Prog.run_perform, alone_eq draws hwrite (by simp)]
    simp only [Prog.run_perform, alone_eq draws hcommit (by simp)]
  · rw [hdb, hs₁.db, List.nil_append, List.foldl_cons, List.foldl_nil]
    exact Write.apply_insert ..

/-! ## The upload -/

/-- Nothing is stored yet under the key and the id that are drawn. -/
structure FreshUpload (W : World) (key : String) (id : UUID) : Prop where
  objects : ∀ x ∈ W.objects, x.key ≠ key
  rows : ∀ row ∈ W.store.db .ticketAttachments, row.id ≠ id ∧ row.objectKey ≠ key

section Upload

variable {P : Platform} {S : TicketCollaborationService} {context : CurrentTenant}
variable {ticketId u v : UUID} {i random : Nat} {W W₁ : World} {draws rest : List UUID}
variable {t : Ticket} {upload : Upload}

/-- An upload after the member's access is checked. -/
theorem run_uploadAttachment
    (hget : (TicketService.get S.rbac context ticketId).run (alone i random) (W, draws) =
      some (.ok t, (W₁, u :: v :: rest)))
    (hfresh : FreshUpload W₁ (objectKey context.tenant.id ticketId u) v) (hW : Alone i [] W₁) :
    match S.validate P upload with
    | .error e => (S.uploadAttachment P context ticketId upload).run (alone i random) (W, draws) =
        some (.error e, (W₁, u :: v :: rest))
    | .ok (_, _, ⟨_, some e⟩) =>
      (S.uploadAttachment P context ticketId upload).run (alone i random) (W, draws) =
        some (.error e, (W₁, v :: rest))
    | .ok (safeFilename, mediaType, ⟨chunks, none⟩) =>
      ∃ τ W', (S.uploadAttachment P context ticketId upload).run (alone i random) (W, draws) =
          some (.ok { newAttachment context ticketId (objectKey context.tenant.id ticketId u)
            safeFilename mediaType chunks.flatten.length v with createdAt := τ }, (W', rest)) ∧
        W'.objects = W₁.objects ++ [⟨objectKey context.tenant.id ticketId u, i, chunks.flatten⟩] ∧
        { newAttachment context ticketId (objectKey context.tenant.id ticketId u)
            safeFilename mediaType chunks.flatten.length v with createdAt := τ } ∈
          W'.store.db .ticketAttachments := by
  have hupload : (S.uploadAttachment P context ticketId upload).run (alone i random) (W, draws) =
      ((Service.ofExcept (S.validate P upload)).bind fun validated => Service.uuid4.bind fun id =>
        (AttachmentStorage.write (objectKey context.tenant.id ticketId id) validated.2.2).bind
          fun sizeBytes => Service.uuid4.bind fun rowId =>
            (record (newAttachment context ticketId (objectKey context.tenant.id ticketId id)
              validated.1 validated.2.1 sizeBytes rowId)).bind fun _ =>
                Service.refresh .ticketAttachments rowId).run (alone i random)
          (W₁, u :: v :: rest) := by
    show Prog.run _ (Prog.bind _ _) _ = _
    rw [Prog.run_bind, hget]
    rfl
  rw [hupload]
  rcases S.validate P upload with e | ⟨safeFilename, mediaType, chunks, failure⟩
  · rfl
  · have hwrite := @run_write i random (objectKey context.tenant.id ticketId u) W₁ (v :: rest)
      ⟨chunks, failure⟩ hfresh.objects
    cases failure with
    | some e =>
      show Prog.run _ (Prog.bind (AttachmentStorage.write _ _) _) _ = _
      rw [Prog.run_bind, hwrite]
    | none =>
      let key := objectKey context.tenant.id ticketId u
      let stored : World := { W₁ with objects := W₁.objects ++ [⟨key, i, chunks.flatten⟩] }
      let row := newAttachment context ticketId key safeFilename mediaType chunks.flatten.length v
      have hstored : Alone i [] stored := ⟨⟨hW.usable, hW.writes⟩, hW.free⟩
      obtain ⟨τ, W₂, hrecord, hW₂, hb, hrows⟩ :=
        @run_record i random stored rest hstored row hfresh.rows
      obtain ⟨W₃, hrefresh, hs⟩ := @run_refresh i random W₂ rest hW₂ .ticketAttachments _
        { row with createdAt := τ } hrows fun r hr => (hfresh.rows r hr).1
      refine ⟨τ, W₃, ?_, ?_, ?_⟩
      · show Prog.run _ (Prog.bind (AttachmentStorage.write _ _) _) _ = _
        rw [Prog.run_bind, hwrite]
        show Prog.run _ (Prog.bind (record row) _) (stored, rest) = _
        rw [Prog.run_bind, hrecord]
        exact hrefresh
      · exact ((hs.beside.parts .objects nofun).trans (hb.parts .objects nofun))
      · rw [hs.db, hrows]
        exact List.mem_append_right _ (List.mem_singleton_self _)

end Upload

/-- **An upload is accepted for its content alone** (module doc). -/
theorem acceptance_depends_on_content (P : Platform) (S : TicketCollaborationService)
    {filename contentType : Option String} {safeFilename mediaType : String}
    (hm : validateMetadata P filename contentType = .ok (safeFilename, mediaType))
    (context : CurrentTenant) (ticketId : UUID) (content : Bytes) {i random : Nat} {W W₁ : World}
    {draws rest : List UUID} {u v : UUID} {t : Ticket} (hW : Alone i [] W)
    (hget : (TicketService.get S.rbac context ticketId).run (alone i random) (W, draws) =
      some (.ok t, (W₁, u :: v :: rest)))
    (hfresh : FreshUpload W (objectKey context.tenant.id ticketId u) v) :
    let result := (S.uploadAttachment P context ticketId
      ⟨filename, contentType, delivered content⟩).run (alone i random) (W, draws)
    ((∃ a s', result = some (.ok a, s')) ↔
      Acceptable S.maxAttachmentSizeBytes mediaType content) ∧
    (∀ a W' draws', result = some (.ok a, (W', draws')) →
      a ∈ W'.store.db .ticketAttachments ∧ a.sizeBytes = content.length ∧
        W'.objects = W.objects ++ [⟨a.objectKey, i, content⟩]) ∧
    (¬Acceptable S.maxAttachmentSizeBytes mediaType content → ∃ e W' draws',
      result = some (.error e, (W', draws')) ∧ e.isAttachmentError = true ∧
        W'.objects = W.objects) := by
  intro result
  obtain ⟨hW₁, hs⟩ := run_reading (TicketService.quiet_get S.rbac context ticketId) hW hget
  have hobjects : W₁.objects = W.objects := hs.beside.parts .objects nofun
  have hfresh₁ : FreshUpload W₁ (objectKey context.tenant.id ticketId u) v :=
    ⟨hobjects ▸ hfresh.objects, hs.db ▸ hfresh.rows⟩
  have hrun := @run_uploadAttachment P S context ticketId u v i random W W₁ draws rest t
    ⟨filename, contentType, delivered content⟩ hget hfresh₁ hW₁
  rcases @validate_delivered P S filename contentType safeFilename mediaType hm content with
    ⟨hok, chunks, rfl, hvalid⟩ | ⟨hno, ⟨e, hvalid, he⟩ | ⟨chunks, e, hvalid, he⟩⟩
  · rw [hvalid] at hrun
    obtain ⟨τ, W', hresult, hstored, hrow⟩ := hrun
    refine ⟨iff_of_true ⟨_, _, hresult⟩ hok, fun a V draws' h => ?_, fun h => absurd hok h⟩
    cases hresult.symm.trans h
    exact ⟨hrow, rfl, by rw [hstored, hobjects]; rfl⟩
  all_goals
    rw [hvalid] at hrun
    refine ⟨iff_of_false (fun ⟨a, s', h⟩ => ?_) hno, fun a V draws' h => ?_,
      fun _ => ⟨e, _, _, hrun, he, hobjects⟩⟩
    · cases hrun.symm.trans h
    · cases hrun.symm.trans h

/-- A text of two letters is stored. -/
theorem acceptance_depends_on_content_hi :
    ∃ a s', (TicketCollaborationService.uploadAttachment .plain ⟨⟨false, 300, 30⟩, 10⟩ .owner 7
      ⟨some "hi.txt", some "text/plain", delivered [104, 105]⟩).run (alone 0 0)
        (World.fresh Db.ticketed, [2, 3]) = some (.ok a, s') := by
  have hm : validateMetadata .plain (some "hi.txt") (some "text/plain") =
      .ok ("hi.txt", "text/plain") := by decide +kernel
  have hfresh : FreshUpload (World.fresh Db.ticketed) (objectKey 1 7 2) 3 :=
    ⟨fun _ h => absurd h List.not_mem_nil, fun _ h => absurd h List.not_mem_nil⟩
  refine (acceptance_depends_on_content .plain ⟨⟨false, 300, 30⟩, 10⟩ hm .owner 7 [104, 105]
    ⟨⟨rfl, rfl⟩, fun _ => rfl⟩ rfl hfresh).1.mpr ⟨by decide, by decide, ⟨[], ?_⟩, fun _ => ?_⟩
  · exact ⟨by decide +kernel, List.nil_prefix⟩
  · exact ⟨by decide, ['h', 'i'], by decide +kernel⟩

end Ticketing
