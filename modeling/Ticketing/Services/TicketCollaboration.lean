import Ticketing.Services.Ticket
import Ticketing.Storage.Local
import Ticketing.Lib.Utf8

/-!
# `services/ticket_collaboration.py`

Comments and attachments.

* `createComment`, `listComments`, `listAttachments`, `uploadAttachment` and `downloadAttachment`
  are the methods of these names. `download` is an answer whose content is read while it is sent.
* What validates an upload on its way to the storage is a function on chunk streams: `validate`
  looks at the metadata (`validateMetadata`) and at the first chunk (`validateSignature`), and
  `boundedChunks` is the generator `bounded_chunks`, with its running total and its incremental
  UTF-8 decoder.
* The storage is driven operation by operation (`AttachmentStorage`), as `LocalAttachmentStorage`
  drives the file system: any of them may raise, and the handlers undo what was done. `record` is
  the insert of the row, whose handler deletes the object.

The check of a key's form stands in front of `exists_` and `read` only: `write` and `delete` are
called with the keys of uploads, which pass it (`checkKey_objectKey`).
-/

namespace Ticketing

open Lib (Utf8.decode)
open Lib.Text (strip replaceChar)
open Service (perform)

/-- What a pure step of a service returns or raises. -/
def Service.ofExcept {α : Type} : Except Exn α → Service α
  | .ok a => pure a
  | .error e => throw e

namespace AttachmentStorage

/-- `async for chunk in chunks: output.write(chunk)`. -/
def append (key : String) (failure : Option Exn) : List Bytes → Service Unit
  | [] =>
    match failure with
    | none => pure ()
    | some e => throw e
  | chunk :: chunks => do
    perform (Op.appendObject key chunk)
    append key failure chunks

/-- `LocalAttachmentStorage.write`. Its check of the key passes for the keys of uploads
(`checkKey_objectKey`). -/
def write (key : String) (stream : ChunkStream) : Service Nat := do
  -- `created` is set when `open` has returned
  perform (Op.createObject key)
  tryCatch
    (do
      append key stream.failure stream.chunks
      -- `flush`, then `close`
      perform (Op.closeObject key false)
      perform (Op.closeObject key false)
      pure stream.content.length)
    fun e => do
      perform (Op.closeObject key true)
      perform (Op.unlinkObject key)
      throw e

/-- `LocalAttachmentStorage.delete`. -/
def delete (key : String) : Service Unit := perform (Op.unlinkObject key)

/-- The check of `LocalAttachmentStorage._resolve`. -/
def checkKey (key : String) : Service Unit :=
  if LocalAttachmentStorage.objectKeyPattern.fullmatch key then pure () else throw .invalidObjectKey

/-- `LocalAttachmentStorage.exists`. -/
def exists_ (key : String) : Service Bool := do
  checkKey key
  perform (Op.isObject key)

/-- The chunks `LocalAttachmentStorage.read` yields, together. -/
def read (key : String) : Service Bytes := do
  checkKey key
  match ← perform (Op.readObject key) with
  | some content => pure content
  | none => throw (.other "FileNotFoundError")

end AttachmentStorage

structure TicketCollaborationService where
  rbac : RBACService
  maxAttachmentSizeBytes : Nat
  deriving DecidableEq, Repr

namespace Db

/-- `TicketCommentRepository.list_for_ticket`. -/
def ticketCommentsOf (db : Db) (tenantId ticketId : UUID) (includeInternal : Bool) :
    List TicketComment :=
  ((db .ticketComments).filter fun c => c.tenantId = tenantId ∧ c.ticketId = ticketId ∧
      (includeInternal ∨ c.visibility = .public)).insertionSort
    fun a b => createdOrder (a.createdAt, a.id) (b.createdAt, b.id)

/-- `TicketAttachmentRepository.list_for_ticket`. -/
def ticketAttachmentsOf (db : Db) (tenantId ticketId : UUID) : List TicketAttachment :=
  ((db .ticketAttachments).filter fun a =>
    a.tenantId = tenantId ∧ a.ticketId = ticketId).insertionSort
    fun a b => createdOrder (a.createdAt, a.id) (b.createdAt, b.id)

/-- `TicketAttachmentRepository.get_by_id`. -/
def ticketAttachment (db : Db) (tenantId ticketId attachmentId : UUID) : Option TicketAttachment :=
  (db .ticketAttachments).find? fun a =>
    a.tenantId = tenantId ∧ a.ticketId = ticketId ∧ a.id = attachmentId

end Db

namespace TicketCollaborationService

variable (P : Platform) (S : TicketCollaborationService)

/-- `_can_view_internal`. -/
def canViewInternal (context : CurrentTenant) : Service Bool :=
  S.rbac.hasPermission context.membership .ticketsCommentInternal

def createComment (context : CurrentTenant) (ticketId : UUID) (body : String)
    (visibility : CommentVisibility) : Service TicketComment := do
  let _ ← TicketService.get S.rbac context ticketId
  if visibility = .internal then
    if !(← S.canViewInternal context) then throw .internalCommentForbidden
  let id ← Service.uuid4
  Service.insert .ticketComments {
    id
    tenantId := context.tenant.id
    ticketId
    authorMembershipId := context.membership.id
    visibility
    body := strip body
    createdAt := 0 }
  Service.commit
  Service.refresh .ticketComments id

def listComments (context : CurrentTenant) (ticketId : UUID) : Service (List TicketComment) := do
  let _ ← TicketService.get S.rbac context ticketId
  let includeInternal ← S.canViewInternal context
  Service.select fun db => db.ticketCommentsOf context.tenant.id ticketId includeInternal

def listAttachments (context : CurrentTenant) (ticketId : UUID) :
    Service (List TicketAttachment) := do
  let _ ← TicketService.get S.rbac context ticketId
  Service.select fun db => db.ticketAttachmentsOf context.tenant.id ticketId

/-! ## What an upload is checked for -/

/-- `PurePosixPath(path).name`. -/
def pathName (path : String) : String :=
  (((path.toList.splitOn '/').map String.ofList).filter fun c => c ≠ "" ∧ c ≠ ".").getLast?.getD ""

/-- `PurePosixPath(name).suffix`, of a path of one component. -/
def suffix (name : String) : String :=
  let extension := name.toList.reverse.takeWhile (· ≠ '.')
  -- a dot that comes first, or last, begins no suffix
  if extension.length + 1 < name.length ∧ extension ≠ [] then
    String.ofList ('.' :: extension.reverse)
  else ""

/-- `_ALLOWED_CONTENT_TYPES`. -/
def allowedContentTypes : List (String × String) :=
  [(".jpeg", "image/jpeg"), (".jpg", "image/jpeg"), (".pdf", "application/pdf"),
    (".png", "image/png"), (".txt", "text/plain")]

/-- `ord(character) < 32 or ord(character) == 127`. -/
def isControl (c : Char) : Bool := c.toNat < 32 || c.toNat = 127

/-- `(content_type or "").split(";", 1)[0].strip().lower()`. -/
def normalizeContentType (contentType : Option String) : String :=
  P.lower (strip (String.ofList ((contentType.getD "").toList.takeWhile (· ≠ ';'))))

/-- `_validate_metadata`. -/
def validateMetadata (filename contentType : Option String) : Except Exn (String × String) :=
  match filename with
  | none => .error .attachmentFilenameInvalid
  | some filename =>
    let safeFilename := strip (pathName (replaceChar '\\' '/' filename))
    if safeFilename = "" ∨ safeFilename = "." ∨ safeFilename = ".." ∨ 255 < safeFilename.length ∨
        safeFilename.toList.any isControl then .error .attachmentFilenameInvalid
    else
      let expected := allowedContentTypes.lookup (P.lower (suffix safeFilename))
      if expected = some (normalizeContentType P contentType) then
        .ok (safeFilename, normalizeContentType P contentType)
      else .error .attachmentContentTypeInvalid

/-- The bytes a file of a content type begins with, `none` where the type is not allowed. -/
def signature (contentType : String) : Option Bytes :=
  if contentType = "image/png" then some [0x89, 0x50, 0x4E, 0x47, 0x0D, 0x0A, 0x1A, 0x0A]
  else if contentType = "image/jpeg" then some [0xFF, 0xD8, 0xFF]
  else if contentType = "application/pdf" then some [0x25, 0x50, 0x44, 0x46, 0x2D]
  else if contentType = "text/plain" then some []
  else none

/-- `_validate_signature`. -/
def validateSignature (contentType : String) (firstChunk : Bytes) : Except Exn Unit :=
  if (signature contentType).any (·.isPrefixOf firstChunk) then .ok ()
  else .error .attachmentContentTypeInvalid

/-- `anext(chunks, None)`: the first chunk, if it is one, and the iterator after it. -/
def firstChunk (chunks : ChunkStream) : Except Exn (Bytes × ChunkStream) :=
  match chunks.chunks, chunks.failure with
  | [], none => .error .attachmentEmpty
  | [], some e => .error e
  | first :: rest, failure =>
    if first = [] then .error .attachmentEmpty else .ok (first, ⟨rest, failure⟩)

/-- `_prepend`. -/
def prepend (first : Bytes) (remainder : ChunkStream) : ChunkStream :=
  ⟨first :: remainder.chunks.filter (· ≠ []), remainder.failure⟩

def ChunkStream.cons (chunk : Bytes) (s : ChunkStream) : ChunkStream :=
  ⟨chunk :: s.chunks, s.failure⟩

/-- One chunk at the decoder of a text upload: what stays in its buffer. -/
def checkText (text : Bool) (buffer chunk : Bytes) : Except Exn Bytes :=
  if text then
    if 0 ∈ chunk then .error .attachmentContentTypeInvalid
    else
      match Utf8.decode false buffer chunk with
      | none => .error .attachmentContentTypeInvalid
      | some (_, buffer) => .ok buffer
  else .ok buffer

/-- `bounded_chunks` after `total` bytes, with the decoder's buffer. -/
def boundedFrom (limit : Nat) (text : Bool) (failure : Option Exn) :
    Nat → Bytes → List Bytes → ChunkStream
  | _, buffer, [] =>
    match failure with
    | some e => ⟨[], some e⟩
    -- `decoder.decode(b"", final=True)`
    | none => ⟨[], if text ∧ buffer ≠ [] then some .attachmentContentTypeInvalid else none⟩
  | total, buffer, chunk :: rest =>
    if limit < total + chunk.length then ⟨[], some .attachmentTooLarge⟩
    else
      match checkText text buffer chunk with
      | .error e => ⟨[], some e⟩
      | .ok buffer =>
        ChunkStream.cons chunk (boundedFrom limit text failure (total + chunk.length) buffer rest)

/-- `bounded_chunks`. -/
def boundedChunks (limit : Nat) (contentType : String) (stream : ChunkStream) : ChunkStream :=
  boundedFrom limit (contentType = "text/plain") stream.failure 0 [] stream.chunks

/-! ## Uploading -/

/-- What a call is asked to store. -/
structure Upload where
  filename : Option String
  contentType : Option String
  chunks : ChunkStream

/-- The checks before anything is stored: the file name, the content type, and the bytes to
store. -/
def validate (upload : Upload) : Except Exn (String × String × ChunkStream) := do
  let (safeFilename, contentType) ← validateMetadata P upload.filename upload.contentType
  let (first, iterator) ← firstChunk upload.chunks
  validateSignature contentType first
  pure (safeFilename, contentType,
    boundedChunks S.maxAttachmentSizeBytes contentType (prepend first iterator))

/-- `f"{context.tenant.id.hex}/{ticket_id.hex}/{uuid4().hex}"`. -/
def objectKey (tenantId ticketId id : UUID) : String :=
  tenantId.hex ++ "/" ++ ticketId.hex ++ "/" ++ id.hex

def newAttachment (context : CurrentTenant) (ticketId : UUID) (objectKey originalFilename : String)
    (contentType : String) (sizeBytes : Nat) (id : UUID) : TicketAttachment where
  id
  tenantId := context.tenant.id
  ticketId
  uploaderMembershipId := context.membership.id
  objectKey
  originalFilename
  contentType
  sizeBytes
  createdAt := 0

/-- The row of a stored object, or the object is deleted. -/
def record (attachment : TicketAttachment) : Service Unit :=
  tryCatch
    (do
      Service.insert .ticketAttachments attachment
      Service.commit)
    fun e => do
      Service.rollback
      AttachmentStorage.delete attachment.objectKey
      throw e

def uploadAttachment (context : CurrentTenant) (ticketId : UUID) (upload : Upload) :
    Service TicketAttachment := do
  let _ ← TicketService.get S.rbac context ticketId
  let (safeFilename, contentType, stream) ← Service.ofExcept (S.validate P upload)
  let key := objectKey context.tenant.id ticketId (← Service.uuid4)
  let sizeBytes ← AttachmentStorage.write key stream
  let id ← Service.uuid4
  record (newAttachment context ticketId key safeFilename contentType sizeBytes id)
  Service.refresh .ticketAttachments id

/-! ## Downloading -/

/-- `download_attachment`: the attachment whose object is there. -/
def downloadAttachment (context : CurrentTenant) (ticketId attachmentId : UUID) :
    Service TicketAttachment := do
  let _ ← TicketService.get S.rbac context ticketId
  match ← Service.select fun db => db.ticketAttachment context.tenant.id ticketId attachmentId with
  | none => throw .attachmentNotFound
  | some attachment =>
    if ← AttachmentStorage.exists_ attachment.objectKey then pure attachment
    else throw .attachmentNotFound

/-- A download as it is answered: its content is read while it is sent. -/
def download (context : CurrentTenant) (ticketId attachmentId : UUID) :
    Service (TicketAttachment × Bytes) := do
  let attachment ← S.downloadAttachment context ticketId attachmentId
  let content ← AttachmentStorage.read attachment.objectKey
  pure (attachment, content)

end TicketCollaborationService

end Ticketing
