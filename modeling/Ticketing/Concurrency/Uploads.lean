import Ticketing.Concurrency.System
import Ticketing.Services.Attachments

/-!
# Uploads in parallel

The pool of `upload_attachment` (`UploadCall`), over the attachment store and the committed rows.
Any step may raise, and any process may die. Everybody else leaves the objects and the attachments
alone (`BesideUploads`).

* `recoverable` is what is assumed: a commit that raises has no effect, and what the handlers do
  succeeds. `undoable` is the condition besides: no call is cancelled while its thread goes on to
  create the file. The exception comes before `created` is set then, and the file stays.
* `Stored` is the invariant: every row has its object, and keys are unique.
* An object is its writer's from the `open` on (`Holding`): nobody else touches it, and no row has
  its key until the writer's own commit (`Attached`). So each handler undoes what its upload did,
  and nothing else.

Results:
* `upload`: what an upload leaves behind on each way out.
* `uploads_are_atomic`: whenever no upload is in progress, rows and objects match one to one
  (`World.Matched`), and each object is the content of its upload; no step changes an object of an
  upload other than the one that moves.
* `cancelled_open_leaves_object`: a run with a cancelled `open`, after which an object has no row.
-/

namespace Ticketing

open Lib (Prog Store System Outline)
open Lib.Outline (Triple Assertion post)
open TicketCollaborationService

structure UploadCall where
  context : CurrentTenant
  ticketId : UUID
  upload : Upload

def uploads (P : Platform) (S : TicketCollaborationService) : Calls where
  Call := UploadCall
  Ret _ := TicketAttachment
  prog c := S.uploadAttachment P c.context c.ticketId c.upload

/-- A commit that raises has no effect; a handler's operations do not raise. -/
def recoverable : Admission := fun _ _ o c =>
  match o with
  | .commit => c.fault ≠ some .lostReply ∧ c.fault ≠ some .cancelledAfter
  | .closeObject _ true | .unlinkObject _ | .rollback => c.fault = none
  | _ => True

/-- And no call is cancelled while its thread goes on to create the file. -/
def undoable : Admission := fun i W o c =>
  recoverable i W o c ∧
    ∀ key, o = .createObject key → W.object key = none → c.fault ≠ some .cancelledAfter

/-- The rest of the system moves. -/
structure BesideUploads (W W' : World) : Prop where
  untouched : Untouched [.ticketAttachments] W W'
  objects : W'.objects = W.objects

namespace Uploads

/-! ## The outline -/

/-- Every row has its object; keys are unique among the objects and among the rows. -/
structure Stored (W : World) : Prop where
  backed : ∀ row ∈ W.store.db .ticketAttachments, ∃ x ∈ W.objects,
    x.key = row.objectKey ∧ x.content.length = row.sizeBytes ∧ 0 < row.sizeBytes
  keys : (W.objects.map StoredObject.key).Nodup
  rows : ((W.store.db .ticketAttachments).map TicketAttachment.objectKey).Nodup

/-- Nobody else touches the objects of upload `j`, or has a row with the key of one. -/
structure Kept (j : Nat) (W W' : World) : Prop where
  objects : ∀ x : StoredObject, x.writer = j → (x ∈ W'.objects ↔ x ∈ W.objects)
  rows : ∀ x ∈ W.objects, x.writer = j → ∀ row : TicketAttachment, row.objectKey = x.key →
    (row ∈ W'.store.db .ticketAttachments ↔ row ∈ W.store.db .ticketAttachments)

theorem Kept.of_eq {j : Nat} {W W' : World} (hdb : W'.store.db = W.store.db)
    (ho : W'.objects = W.objects) : Kept j W W' :=
  ⟨fun x _ => by rw [ho], fun x _ _ row _ => by rw [hdb]⟩

theorem Kept.trans {j : Nat} {W W' W'' : World} (h : Kept j W W') (h' : Kept j W' W'') :
    Kept j W W'' where
  objects x hx := (h'.objects x hx).trans (h.objects x hx)
  rows x hx hj row hr :=
    (h'.rows x ((h.objects x hj).mpr hx) hj row hr).trans (h.rows x hx hj row hr)

def outline : WorldOutline where
  inv := Stored
  frame := Kept
  same W W' := W'.objects = W.objects
  blind o := o.part ≠ some .objects
  refl _ _ := .of_eq rfl rfl
  trans _ _ _ _ _ h h' := h.trans h'
  same_setStore _ _ := rfl
  same_blind hb hst := (opStep_part hst).parts .objects hb
  inv_local hl hs h := by
    have hdb := hl.db
    exact ⟨by rw [hdb, hs]; exact h.backed, by rw [hs]; exact h.keys, by rw [hdb]; exact h.rows⟩
  frame_local _ hl hs := .of_eq hl.db hs

abbrev Knows (i : Nat) := outline.outline.Assertion i

section Assertions

variable (i : Nat)

/-- No object is upload `i`'s. -/
def Nothing : Knows i where
  holds W := ∀ x ∈ W.objects, x.writer ≠ i
  stable _ _ h hm x hx hi := h x ((hm.2.2.objects x hi).mp hx) hi

/-- The one object of upload `i`. -/
structure Owns (key : String) (content : Bytes) (W : World) : Prop where
  mem : ⟨key, i, content⟩ ∈ W.objects
  only : ∀ x ∈ W.objects, x.writer = i → x = ⟨key, i, content⟩

variable {i} in
theorem Owns.moved {key : String} {content : Bytes} {W W' : World} (h : Owns i key content W)
    (hk : Kept i W W') : Owns i key content W' where
  mem := (hk.objects _ rfl).mpr h.mem
  only x hx hi := h.only x ((hk.objects x hi).mp hx) hi

/-- The object of upload `i`, of which there is no row. -/
def Holding (key : String) (content : Bytes) : Knows i where
  holds W := Owns i key content W ∧ ∀ row ∈ W.store.db .ticketAttachments, row.objectKey ≠ key
  stable _ _ h hm := ⟨h.1.moved hm.2.2, fun row hr hk =>
    h.2 row ((hm.2.2.rows _ h.1.mem rfl row hk).mp hr) hk⟩

/-- The object of upload `i`, and its row. -/
def Attached (key : String) (content : Bytes) : Knows i where
  holds W := Owns i key content W ∧ ∃ row ∈ W.store.db .ticketAttachments, row.objectKey = key
  stable _ _ h hm := ⟨h.1.moved hm.2.2, by
    obtain ⟨row, hr, hk⟩ := h.2
    exact ⟨row, (hm.2.2.rows _ h.1.mem rfl row hk).mpr hr, hk⟩⟩

end Assertions

/-- About the rows and the objects alone. -/
def Settled {i : Nat} (X : Knows i) : Prop :=
  ∀ {W W' : World}, W'.store.db = W.store.db → W'.objects = W.objects → X W → X W'

variable {i : Nat} {key : String} {content : Bytes}

theorem settled_nothing : Settled (Nothing i) := fun _ ho h => by
  show ∀ x ∈ _, _
  rw [ho]
  exact h

theorem Owns.of_eq {W W' : World} (ho : W'.objects = W.objects) (h : Owns i key content W) :
    Owns i key content W' := ⟨by rw [ho]; exact h.mem, by rw [ho]; exact h.only⟩

theorem settled_holding : Settled (Holding i key content) := fun hdb ho h =>
  ⟨h.1.of_eq ho, by rw [hdb]; exact h.2⟩

theorem settled_attached : Settled (Attached i key content) := fun hdb ho h =>
  ⟨h.1.of_eq ho, by rw [hdb]; exact h.2⟩

theorem settled_ex {α : Type} {X : α → Knows i} (h : ∀ a, Settled (X a)) : Settled (.ex X) :=
  fun hdb ho ⟨a, ha⟩ => ⟨a, h a hdb ho ha⟩

/-! ## Rules -/

variable {X : Knows i} {φ : List Write → Prop} {ρ : Exn → Prop} {α : Type}

/-- The rule of what only reads and draws. -/
theorem reading (hX : Settled X) {p : Service α} (hp : Service.Quiet ρ p) :
    Triple (callStep undoable i) (X.and (outline.Writes i φ)) p
      (fun _ => X.and (outline.Writes i φ)) fun _ => X :=
  WorldOutline.quiet hp
    (fun o ho => ⟨ho.quiet, show o.part ≠ some .objects by
      cases o <;> first | exact ho.elim | nofun⟩)
    { keeps := fun hk hs h => ⟨hX hk.db hs h.1, by
        have := h.2
        simpa only [WorldOutline.Writes, hk.writes] using this⟩
      error := fun _ _ _ h => h.1
      dropped := fun _ _ _ _ hd hs h => hX hd.db hs h.1 }

/-- The rule of a draw, which does not raise. -/
theorem drawing {A : Knows i} {E : Exn → Knows i} :
    Triple (callStep undoable i) A Service.uuid4 (fun _ => A) E :=
  Triple.op fun W r W' hi hA ⟨c, _, hst⟩ => by
    cases hst
    exact ⟨⟨hi, fun j _ => outline.outline.refl j W⟩, hA⟩

/-- The rule of an operation on the objects. -/
theorem onObjects {o : Op} {A : Knows i} {B : o.Res → Knows i} {E : Exn → Knows i}
    (h : ∀ W c r W', outline.outline.inv W → A W → undoable i W o c →
      opStep i c o W = some (r, W') →
      (∃ objects, W' = { W with objects } ∧ Stored W' ∧ ∀ j, j ≠ i → Kept j W W') ∧
        post B E r W') : Triple (callStep undoable i) A (Lib.Prog.perform o) B E :=
  Triple.op fun W r W' hi hA ⟨c, hadm, hst⟩ => by
    obtain ⟨⟨objects, rfl, hs, hk⟩, hpost⟩ := h W c r W' hi hA hadm hst
    exact ⟨⟨⟨hi.1, hs⟩, fun j hj => ⟨.refl j _, hk j hj⟩⟩, hpost⟩

/-- What a file operation can come to: its answer, or an exception before or after its effect. -/
theorem file_cases {β : Type} {V V' W' : World} {fault : Option Lib.Fault} {a r : Except Exn β}
    (h : V.file fault a V' = some (r, W')) :
    r = a ∧ W' = V' ∨ (∃ e, r = .error e) ∧ fault ≠ none ∧
      (W' = V ∨ W' = V' ∧ fault = some .cancelledAfter) := by
  unfold World.file World.awaiting at h
  rcases fault with _ | f
  · cases h; exact .inl ⟨rfl, rfl⟩
  · cases f with
    | cancelledAfter => cases h; exact .inr ⟨⟨_, rfl⟩, nofun, .inr ⟨rfl, rfl⟩⟩
    | _ => cases h; exact .inr ⟨⟨_, rfl⟩, nofun, .inl rfl⟩

/-- A step that moves nothing. -/
theorem unmoved {W : World} (hi : outline.outline.inv W) :
    ∃ objects, W = { W with objects } ∧ Stored W ∧ ∀ j, j ≠ i → Kept j W W :=
  ⟨W.objects, rfl, hi.2, fun _ _ => .of_eq rfl rfl⟩

/-- The rule of `flush` and `close`, which in a handler do not raise. -/
theorem closing {A : Knows i} {E : Exn → Knows i} {handling : Bool}
    (hE : handling = false → ∀ e W, A W → E e W) :
    Triple (callStep undoable i) A (Lib.Prog.perform (Op.closeObject key handling))
    (fun _ => A) E :=
  onObjects fun W c r W' hi hA hadm hst => by
    rcases file_cases hst with ⟨rfl, rfl⟩ | ⟨⟨e, rfl⟩, hf, hW⟩
    · exact ⟨unmoved hi, hA⟩
    · cases handling with
      | true => exact absurd hadm.1 hf
      | false =>
        rcases hW with rfl | ⟨rfl, -⟩
        all_goals exact ⟨unmoved hi, hE rfl e _ hA⟩

/-- The rule of `open(path, "xb")`. -/
theorem creating :
    Triple (callStep undoable i) ((Nothing i).and (outline.Writes i φ))
      (Lib.Prog.perform (Op.createObject key))
      (fun _ => (Holding i key []).and (outline.Writes i φ)) fun _ => Nothing i :=
  onObjects fun W c r W' hi hA hadm hst => by
    simp only [opStep] at hst
    cases ho : W.object key with
    | some x =>
      simp only [ho] at hst
      rcases file_cases hst with ⟨rfl, rfl⟩ | ⟨⟨e, rfl⟩, -, rfl | ⟨rfl, -⟩⟩
      all_goals exact ⟨unmoved hi, hA.1⟩
    | none =>
      simp only [ho] at hst
      have hnew : ∀ x ∈ W.objects, x.key ≠ key := fun x hx => by
        simpa using List.find?_eq_none.mp ho x hx
      rcases file_cases hst with ⟨rfl, rfl⟩ | ⟨⟨e, rfl⟩, -, rfl | ⟨rfl, hf⟩⟩
      · refine ⟨⟨_, rfl, ⟨fun row hr => ?_, ?_, hi.2.rows⟩, fun j hj => ⟨fun x hx => ?_,
          fun _ _ _ _ _ => Iff.rfl⟩⟩, ⟨⟨List.mem_append_right _ (List.mem_singleton_self _),
          fun x hx hw => ?_⟩, fun row hr hk => ?_⟩, hA.2⟩
        · obtain ⟨x, hx, h⟩ := hi.2.backed row hr
          exact ⟨x, List.mem_append_left _ hx, h⟩
        · rw [List.map_append, List.nodup_append]
          refine ⟨hi.2.keys, by simp, fun k hk k' hk' => ?_⟩
          obtain ⟨x, hx, rfl⟩ := List.mem_map.mp hk
          obtain rfl : k' = key := by simpa using hk'
          exact hnew x hx
        · rw [List.mem_append, List.mem_singleton, or_iff_left]
          rintro rfl
          exact hj hx.symm
        · rcases List.mem_append.mp hx with hx | hx
          · exact absurd hw (hA.1 x hx)
          · exact List.mem_singleton.mp hx
        · obtain ⟨x, hx, hxk, -⟩ := hi.2.backed row hr
          exact hnew x hx (hxk.trans hk)
      · exact ⟨unmoved hi, hA.1⟩
      · exact absurd hf (hadm.2 key rfl ho)

/-- What holds of an object of the key is of the one that `i` holds. -/
theorem eq_of_key {W : World} (hs : Stored W) (h : Owns i key content W) {x : StoredObject}
    (hx : x ∈ W.objects) (hk : x.key = key) : x = ⟨key, i, content⟩ :=
  List.inj_on_of_nodup_map hs.keys hx h.mem hk

/-- The object that `i` holds, with more content. -/
theorem grown {W : World} (hi : outline.outline.inv W) (h : Holding i key content W)
    (chunk : Bytes) :
    let W' : World := { W with objects := W.objects.map fun x =>
      if x.key = key then { x with content := x.content ++ chunk } else x }
    (Stored W' ∧ ∀ j, j ≠ i → Kept j W W') ∧ Holding i key (content ++ chunk) W' := by
  intro W'
  have hother : ∀ x ∈ W.objects, x.key ≠ key → x ∈ W'.objects := fun x hx hk =>
    List.mem_map.mpr ⟨x, hx, if_neg hk⟩
  have hmine : ⟨key, i, content ++ chunk⟩ ∈ W'.objects :=
    List.mem_map.mpr ⟨_, h.1.mem, if_pos rfl⟩
  have hcases : ∀ x ∈ W'.objects, x = ⟨key, i, content ++ chunk⟩ ∨ x ∈ W.objects ∧ x.key ≠ key := by
    intro x hx
    obtain ⟨y, hy, rfl⟩ := List.mem_map.mp hx
    split
    · rename_i hk
      rw [eq_of_key hi.2 h.1 hy hk]
      exact .inl rfl
    · rename_i hk
      exact .inr ⟨hy, hk⟩
  refine ⟨⟨⟨fun row hr => ?_, ?_, hi.2.rows⟩, fun j hj => ⟨fun x hx => ⟨fun hm => ?_, fun hm => ?_⟩,
    fun _ _ _ _ _ => Iff.rfl⟩⟩, ⟨hmine, fun x hx hw => ?_⟩, h.2⟩
  · obtain ⟨x, hx, hk, hrest⟩ := hi.2.backed row hr
    exact ⟨x, hother x hx (hk.trans_ne (h.2 row hr)), hk, hrest⟩
  · have hkeys : W'.objects.map StoredObject.key = W.objects.map StoredObject.key := by
      rw [List.map_map]
      refine List.map_congr_left fun x _ => ?_
      simp only [Function.comp_apply]
      split <;> rfl
    rw [hkeys]
    exact hi.2.keys
  · rcases hcases x hm with rfl | ⟨hm, -⟩
    · exact absurd hx.symm hj
    · exact hm
  · refine hother x hm fun hk => hj ?_
    rw [← hx, eq_of_key hi.2 h.1 hm hk]
  · rcases hcases x hx with hx | ⟨hx, hk⟩
    · exact hx
    · exact absurd (congrArg StoredObject.key (h.1.only x hx hw)) hk

theorem appending (chunk : Bytes) :
    Triple (callStep undoable i) ((Holding i key content).and (outline.Writes i φ))
      (Lib.Prog.perform (Op.appendObject key chunk))
      (fun _ => (Holding i key (content ++ chunk)).and (outline.Writes i φ))
      fun _ => .ex (Holding i key) :=
  onObjects fun W c r W' hi hA hadm hst => by
    obtain ⟨⟨hs, hk⟩, hholding⟩ := grown hi hA.1 chunk
    rcases file_cases hst with ⟨rfl, rfl⟩ | ⟨⟨e, rfl⟩, -, rfl | ⟨rfl, -⟩⟩
    · exact ⟨⟨_, rfl, hs, hk⟩, hholding, hA.2⟩
    · exact ⟨unmoved hi, _, hA.1⟩
    · exact ⟨⟨_, rfl, hs, hk⟩, _, hholding⟩

/-- The rule of the `unlink` of a handler. -/
theorem unlinking :
    Triple (callStep undoable i) (.ex (Holding i key)) (Lib.Prog.perform (Op.unlinkObject key))
      (fun _ => Nothing i) fun _ => Nothing i :=
  onObjects fun W c r W' hi ⟨content, h⟩ hadm hst => by
    rcases file_cases hst with ⟨rfl, rfl⟩ | ⟨-, hf, -⟩
    · refine ⟨⟨_, rfl, ⟨fun row hr => ?_, hi.2.keys.sublist (List.filter_sublist.map _), hi.2.rows⟩,
        fun j hj => ⟨fun x hx => ⟨fun hm => (List.mem_filter.mp hm).1, fun hm => ?_⟩,
          fun _ _ _ _ _ => Iff.rfl⟩⟩, fun x hx hw => ?_⟩
      · obtain ⟨x, hx, hk, hrest⟩ := hi.2.backed row hr
        exact ⟨x, List.mem_filter.mpr ⟨hx, by simpa using hk.trans_ne (h.2 row hr)⟩, hk, hrest⟩
      · refine List.mem_filter.mpr ⟨hm, ?_⟩
        have hne : x.key ≠ key := fun hk => hj (by rw [← hx, eq_of_key hi.2 h.1 hm hk])
        simpa using hne
      · obtain ⟨hx, hk⟩ := List.mem_filter.mp hx
        rw [h.1.only x hx hw] at hk
        simp at hk
    · exact absurd hadm.1 hf

/-! ## The storage -/

/-- The session's writes are still none, and `X`. -/
abbrev Unwritten (X : Knows i) : Knows i := X.and (outline.Writes i (· = []))

theorem append (failure : Option Exn) (chunks : List Bytes) :
    Triple (callStep undoable i) (Unwritten (Holding i key content))
      (AttachmentStorage.append key failure chunks)
      (fun _ => (Unwritten (Holding i key (content ++ chunks.flatten))).and
        (.pure (failure = none)))
      fun _ => .ex (Holding i key) := by
  induction chunks generalizing content with
  | nil =>
    rw [List.flatten_nil, List.append_nil]
    cases failure with
    | none => exact Triple.ret fun W _ h => ⟨h, rfl⟩
    | some e => exact Triple.raise fun W _ h => ⟨_, h.1⟩
  | cons chunk chunks ih =>
    rw [List.flatten_cons, ← List.append_assoc]
    exact Triple.bind (appending chunk) fun _ => ih

/-- **A write leaves the whole stream, or nothing.** -/
theorem write (stream : ChunkStream) :
    Triple (callStep undoable i) (Unwritten (Nothing i)) (AttachmentStorage.write key stream)
      (fun size => (Unwritten (Holding i key stream.content)).and
        (.pure (size = stream.content.length ∧ stream.failure = none)))
      fun _ => Nothing i := by
  refine Triple.bind creating fun _ => Triple.handle (M := fun _ => .ex (Holding i key)) ?_
    fun e => ?_
  · refine Triple.bind (append stream.failure stream.chunks) fun _ => Triple.assume fun hf => ?_
    rw [List.nil_append]
    have hclose := @closing i key (Unwritten (Holding i key stream.content))
      (fun _ => .ex (Holding i key)) false fun _ _ _ h => ⟨_, h.1⟩
    exact Triple.bind hclose fun _ => Triple.bind hclose fun _ =>
      Triple.ret fun W _ h => ⟨h, rfl, hf⟩
  · exact Triple.bind (closing nofun) fun _ => Triple.bind unlinking fun _ =>
      Triple.raise fun _ _ h => h

/-! ## The row -/

/-- The rule of the insert. -/
theorem inserting (a : TicketAttachment) :
    Triple (callStep undoable i) (Unwritten (Holding i key content))
      (Service.insert .ticketAttachments a)
      (fun _ => (Holding i key content).and (outline.Writes i fun ws =>
        ∃ τ, ws = [(Write.insert .ticketAttachments a).stamp τ]))
      fun _ => .ex (Holding i key) :=
  WorldOutline.write
    { keeps := fun hk hs h => ⟨settled_holding hk.db hs h.1, by
        have := h.2
        simpa only [WorldOutline.Writes, hk.writes] using this⟩
      error := fun _ _ _ h => ⟨_, h.1⟩
      dropped := fun _ _ _ _ hd hs h => ⟨_, settled_holding hd.db hs h.1⟩ }
    (fun W W' τ _ h hw hs => ⟨settled_holding hw.db hs h.1, τ, by
      rw [hw.writes, show (W.store.sessions i).writes = [] from h.2]
      rfl⟩)
    fun _ _ h => ⟨_, h.1⟩

/-- The rule of the commit: an upload's row is there, or nothing has changed. -/
theorem committing {a : TicketAttachment} (hk : a.objectKey = key)
    (hsize : a.sizeBytes = content.length) (hpos : 0 < content.length) :
    Triple (callStep undoable i)
      ((Holding i key content).and (outline.Writes i fun ws =>
        ∃ τ, ws = [(Write.insert .ticketAttachments a).stamp τ]))
      Service.commit (fun _ => Attached i key content) fun _ => .ex (Holding i key) := by
  refine WorldOutline.commitAt (fun W c W' hi h _ hc hs => ?_) fun W c e W' hi h hadm _ hs hl => ?_
  · obtain ⟨⟨howns, hnone⟩, τ, hτ⟩ := h
    have hrows : W'.store.db .ticketAttachments =
        W.store.db .ticketAttachments ++ [{ a with createdAt := τ }] := by
      have hstamp : (Write.insert .ticketAttachments a).stamp τ =
        .insert .ticketAttachments { a with createdAt := τ } := rfl
      rw [hc.db, Store.view, hτ, hstamp, List.foldl_cons, List.foldl_nil]
      exact Write.apply_insert .ticketAttachments { a with createdAt := τ } W.store.db
    refine ⟨⟨fun row hr => ?_, by rw [hs]; exact hi.2.keys, ?_⟩, fun j hj =>
      ⟨fun x _ => by rw [hs], fun x hx hw row hrk => ?_⟩, howns.of_eq hs,
      { a with createdAt := τ }, ?_, hk⟩
    · rw [hs]
      rw [hrows, List.mem_append, List.mem_singleton] at hr
      rcases hr with hr | rfl
      · exact hi.2.backed row hr
      · exact ⟨_, howns.mem, hk.symm, hsize.symm, hsize ▸ hpos⟩
    · rw [hrows, List.map_append, List.nodup_append]
      refine ⟨hi.2.rows, by simp, fun k hk' k' hk'' => ?_⟩
      obtain ⟨row, hr, rfl⟩ := List.mem_map.mp hk'
      obtain rfl : k' = a.objectKey := by simpa using hk''
      rw [hk]
      exact hnone row hr
    · rw [hrows, List.mem_append, List.mem_singleton, or_iff_left]
      rintro rfl
      refine hj ?_
      rw [← hw, eq_of_key hi.2 howns hx (hrk.symm.trans hk)]
    · rw [hrows]
      exact List.mem_append_right _ (List.mem_singleton_self _)
  · rcases hl with ⟨-, ⟨-, hf, -⟩ | ⟨-, hf⟩⟩ | ⟨hk' | hd, -⟩
    · exact absurd hf hadm.1.1
    · exact absurd hf hadm.1.2
    · exact ⟨_, settled_holding hk'.db hs h.1⟩
    · exact ⟨_, settled_holding hd.db hs h.1⟩

/-- **The row of a held object is committed, or the object is gone.** -/
theorem record {a : TicketAttachment} (hk : a.objectKey = key)
    (hsize : a.sizeBytes = content.length) (hpos : 0 < content.length) :
    Triple (callStep undoable i) (Unwritten (Holding i key content))
      (TicketCollaborationService.record a) (fun _ => Attached i key content)
      fun _ => Nothing i := by
  refine Triple.handle (M := fun _ => .ex (Holding i key))
    (Triple.bind (inserting a) fun _ => committing hk hsize hpos) fun e => ?_
  refine Triple.bind (M := fun _ => .ex (Holding i key)) ?_ fun _ => ?_
  · refine WorldOutline.rollbackAt (fun W W' _ ⟨b, h⟩ hd hs => ⟨b, settled_holding hd.db hs h⟩)
      fun W c e W' _ _ hadm hst _ _ => ?_
    have hf : c.fault = none := hadm.1
    simp only [opStep, World.awaiting, hf] at hst
    cases hst
  · rw [hk.symm]
    exact Triple.bind unlinking fun _ => Triple.raise fun _ _ h => h

/-! ## The call -/

/-- The object of upload `i` with its row. -/
def Finished (i : Nat) (content : Bytes) : Knows i := .ex fun key => Attached i key content

theorem settled_finished : Settled (Finished i content) :=
  settled_ex fun _ => settled_attached

variable {P : Platform} {S : TicketCollaborationService}

/-- **An upload leaves its object with its row, or, where it raises, perhaps nothing.** -/
theorem upload (c : UploadCall) :
    Triple (callStep undoable i) (Unwritten (Nothing i))
      (S.uploadAttachment P c.context c.ticketId c.upload)
      (fun _ => Finished i c.upload.chunks.content)
      fun _ => (Nothing i).or (Finished i c.upload.chunks.content) := by
  have nothing {β : Type} {A : Knows i} {p : Service β} {B : β → Knows i}
      (h : Triple (callStep undoable i) A p B fun _ => Nothing i) :
      Triple (callStep undoable i) A p B
        fun _ => (Nothing i).or (Finished i c.upload.chunks.content) :=
    h.conseq (fun _ _ h => h) (fun _ _ _ h => h) fun _ _ _ h => .inl h
  refine Triple.bind (nothing (reading settled_nothing (TicketService.quiet_get S.rbac _ _)))
    fun _ => ?_
  show Triple _ _ ((Service.ofExcept (S.validate P c.upload)).bind _) _ _
  cases hv : S.validate P c.upload with
  | error e => exact Triple.raise fun _ _ h => .inl h.1
  | ok validated =>
    obtain ⟨safeFilename, mediaType, stream⟩ := validated
    show Triple _ _ (Prog.bind Service.uuid4 _) _ _
    refine Triple.bind drawing fun id => ?_
    refine Triple.bind (nothing (write stream)) fun size => Triple.assume fun ⟨hsize, hwhole⟩ => ?_
    obtain ⟨hcontent, hpos⟩ := content_of_validate hv hwhole
    rw [hcontent] at hsize hpos ⊢
    refine Triple.bind drawing fun rowId => ?_
    refine Triple.bind (nothing (record rfl hsize hpos)) fun _ => ?_
    -- what is committed stays, also where the row cannot be read back
    have hread : Triple (callStep undoable i)
        ((Finished i c.upload.chunks.content).and (outline.Writes i fun _ => True))
        (Service.refresh .ticketAttachments rowId) (fun _ =>
          (Finished i c.upload.chunks.content).and (outline.Writes i fun _ => True))
        fun _ => Finished i c.upload.chunks.content :=
      reading settled_finished
        (Service.quiet_refresh (ρ := fun _ => True) .ticketAttachments rowId trivial)
    exact hread.conseq (fun W _ h => ⟨⟨_, h⟩, trivial⟩) (fun _ _ _ h => h.1) fun _ _ _ h => .inr h

/-- What upload `i` leaves behind. -/
def Left (i : Nat) (c : UploadCall) : Except Exn TicketAttachment → Knows i
  | .ok _ => Finished i c.upload.chunks.content
  | .error _ => (Nothing i).or (Finished i c.upload.chunks.content)

theorem settled_left {c : UploadCall} {r : Except Exn TicketAttachment} :
    Settled (Left i c r) := fun hdb ho h => by
  cases r with
  | ok a => exact settled_finished hdb ho h
  | error e => exact h.imp (settled_nothing hdb ho) (settled_finished hdb ho)

/-- The uploads meet the outline. -/
theorem meets : outline.outline.Ok
    ((uploads P S).system (fun _ _ => True) undoable BesideUploads)
    (fun i c => post (fun _ => Finished i c.upload.chunks.content)
      fun _ => (Nothing i).or (Finished i c.upload.chunks.content))
    fun i c r => Left i c r := by
  have settles (i : Nat) (W : World) (again : Bool) (hi : outline.outline.inv W) :
      outline.outline.Guar i W (W.settle i again) :=
    WorldOutline.guar_dropped (WorldOutline.dropped_settle W i again) rfl hi
  refine WorldOutline.adequate (fun i _ => Unwritten (Nothing i)) _ _ (fun i c W hi hc => ?_)
    (fun i c _ => upload c) (fun i c r W hi h => ⟨settles i W _ hi, ?_⟩)
    (fun i c r W W' h hm => (Left i c r).stable W W' h hm) (fun i W hi => settles i W true hi)
    fun W W' hi henv => ?_
  · have hd := WorldOutline.dropped_accept W i ((uploads P S).message c)
    exact ⟨WorldOutline.guar_dropped hd rfl hi, hc.2.1.2.2, hd.writes⟩
  · have hl : Left i c r W := by cases r <;> exact h
    exact settled_left (WorldOutline.dropped_settle W i _).db rfl hl
  · have hrows := henv.untouched.rows .ticketAttachments (List.mem_singleton_self _)
    refine ⟨⟨henv.untouched.locksOk hi.1, ⟨?_, ?_, ?_⟩⟩, fun j => ⟨henv.untouched.frame j,
      fun x _ => by rw [henv.objects], fun x _ _ row _ => by rw [hrows]⟩⟩
    · rw [hrows, henv.objects]; exact hi.2.backed
    · rw [henv.objects]; exact hi.2.keys
    · rw [hrows]; exact hi.2.rows

end Uploads

/-! ## Runs -/

/-- Rows and objects match one to one by their keys; a row has the size of its object. -/
structure World.Matched (W : World) : Prop where
  keys : (W.objects.map StoredObject.key).Nodup
  rows : ((W.store.db .ticketAttachments).map TicketAttachment.objectKey).Nodup
  matching : ∀ key, key ∈ W.objects.map StoredObject.key ↔
    key ∈ (W.store.db .ticketAttachments).map TicketAttachment.objectKey
  sizes : ∀ x ∈ W.objects, ∀ row ∈ W.store.db .ticketAttachments, row.objectKey = x.key →
    x.content.length = row.sizeBytes ∧ 0 < row.sizeBytes

theorem World.Matched.stored {W : World} (h : W.Matched) : Uploads.Stored W where
  backed row hr := by
    obtain ⟨x, hx, hk⟩ := List.mem_map.mp ((h.matching _).mpr (List.mem_map_of_mem hr))
    exact ⟨x, hx, hk, h.sizes x hx row hr hk.symm⟩
  keys := h.keys
  rows := h.rows

/-- Every object has a row. -/
theorem Uploads.Stored.matched {W : World} (h : Uploads.Stored W)
    (hrow : ∀ x ∈ W.objects, ∃ row ∈ W.store.db .ticketAttachments, row.objectKey = x.key) :
    W.Matched where
  keys := h.keys
  rows := h.rows
  matching key := by
    refine ⟨fun hk => ?_, fun hk => ?_⟩
    · obtain ⟨x, hx, rfl⟩ := List.mem_map.mp hk
      obtain ⟨row, hr, he⟩ := hrow x hx
      exact he ▸ List.mem_map_of_mem hr
    · obtain ⟨row, hr, rfl⟩ := List.mem_map.mp hk
      obtain ⟨x, hx, he, -⟩ := h.backed row hr
      exact he ▸ List.mem_map_of_mem hx
  sizes x hx row hr hk := by
    obtain ⟨y, hy, hyk, hsize⟩ := h.backed row hr
    rwa [List.inj_on_of_nodup_map h.keys hx hy (hk.symm.trans hyk.symm)]

/-- An object of before the uploads lasts: nobody starts under the name it is stored in. -/
theorem Uploads.lasts {P : Platform} {S : TicketCollaborationService} {W₀ : World}
    (hinv : Uploads.outline.outline.inv W₀)
    {pool : ((uploads P S).system (fun _ _ => True) undoable BesideUploads).Pool}
    (h : System.Reachable W₀ pool) {x : StoredObject} (hx : x ∈ W₀.objects) :
    pool.threads x.writer = .idle ∧ x ∈ pool.shared.objects := by
  induction h with
  | refl => exact ⟨rfl, hx⟩
  | @tail pool next hsteps hstep ih =>
    obtain ⟨hidle, hmem⟩ := ih
    have hnext : next.threads x.writer = .idle := by
      rcases hstep.call? x.writer with hc | ⟨-, c, hc, -⟩
      · rw [hidle] at hc
        cases hn : next.threads x.writer with
        | idle => rfl
        | running | finished | dead => rw [hn] at hc; cases hc
      · exact absurd rfl (hc.2.1.2.2 x hmem)
    refine ⟨hnext, ?_⟩
    rcases (Uploads.meets.sound hinv hsteps).guarantee Uploads.meets hstep with
      ⟨i, -, hi, -, hg⟩ | ⟨-, hf⟩
    · have hne : x.writer ≠ i := by rintro rfl; exact hi hnext
      exact ((hg.2 x.writer hne).2.objects x rfl).mpr hmem
    · exact ((hf x.writer).2.objects x rfl).mpr hmem

/-- **Uploads are all or nothing** (module doc). -/
theorem uploads_are_atomic (P : Platform) (S : TicketCollaborationService) {W₀ : World}
    (hq : W₀.Quiet) (h₀ : W₀.Matched)
    {pool : ((uploads P S).system (fun _ _ => True) undoable BesideUploads).Pool}
    (h : System.Reachable W₀ pool) :
    ((∀ i, (pool.threads i).Resting) →
      pool.shared.Matched ∧ (∀ x ∈ W₀.objects, x ∈ pool.shared.objects) ∧
      (∀ x ∈ pool.shared.objects, x ∈ W₀.objects ∨ ∃ c r,
        pool.threads x.writer = .finished c r ∧ x.content = c.upload.chunks.content) ∧
      ∀ i c a, pool.threads i = .finished c (.ok a) →
        ∃ x ∈ pool.shared.objects, x.writer = i ∧ x.content = c.upload.chunks.content) ∧
    ∀ next, System.Step pool next →
      (∃ i, ¬(pool.threads i).Stopped ∧ (∀ j, j ≠ i → next.threads j = pool.threads j) ∧
        ∀ x, x.writer ≠ i → (x ∈ next.shared.objects ↔ x ∈ pool.shared.objects)) ∨
      next.threads = pool.threads ∧
        ∀ x, x ∈ next.shared.objects ↔ x ∈ pool.shared.objects := by
  have hinv : Uploads.outline.outline.inv W₀ :=
    ⟨fun j w hw => by simp [hq.sessions] at hw, h₀.stored⟩
  have hok := Uploads.meets.sound hinv h
  refine ⟨fun hover => ?_, fun next hstep => ?_⟩
  · -- the object of a finished upload is its content, with a row; the others are those of before
    have hobject : ∀ x ∈ pool.shared.objects,
        (∃ row ∈ pool.shared.store.db .ticketAttachments, row.objectKey = x.key) ∧
        (x ∈ W₀.objects ∨ ∃ c r,
          pool.threads x.writer = .finished c r ∧ x.content = c.upload.chunks.content) := by
      intro x hx
      have hrest := hover x.writer
      cases hfin : pool.threads x.writer with
      | running | dead => rw [hfin] at hrest; exact hrest.elim
      | idle =>
        have hkept := (Uploads.meets.idle hinv h hfin).2
        have hx₀ := (hkept.objects x rfl).mp hx
        obtain ⟨row, hr, hk⟩ := List.mem_map.mp ((h₀.matching _).mp (List.mem_map_of_mem hx₀))
        exact ⟨⟨row, (hkept.rows x hx₀ rfl row hk).mpr hr, hk⟩, .inl hx₀⟩
      | finished c r =>
        have hfinished : Uploads.Finished x.writer c.upload.chunks.content pool.shared := by
          have hleft := hok.finished hfin
          cases r with
          | ok a => exact hleft
          | error e => exact hleft.resolve_left fun hnone => hnone x hx rfl
        obtain ⟨key, howns, row, hr, hk⟩ := hfinished
        have hxe := howns.only x hx rfl
        exact ⟨⟨row, hr, by rw [hk, hxe]⟩, .inr ⟨c, r, rfl, by rw [hxe]⟩⟩
    refine ⟨hok.inv.2.matched fun x hx => (hobject x hx).1, fun x hx => ?_,
      fun x hx => (hobject x hx).2, fun i c a hfin => ?_⟩
    · exact (Uploads.lasts hinv h hx).2
    · obtain ⟨key, howns, -⟩ := hok.finished hfin
      exact ⟨_, howns.mem, rfl, rfl⟩
  · rcases hok.guarantee Uploads.meets hstep with ⟨i, hi, -, hothers, hg⟩ | ⟨ht, hf⟩
    · exact .inl ⟨i, hi, hothers, fun x hx => (hg.2 x.writer hx).2.objects x rfl⟩
    · exact .inr ⟨ht, fun x => (hf x.writer).2.objects x rfl⟩

theorem matched_ticketed : (World.fresh Db.ticketed).Matched where
  keys := .nil
  rows := .nil
  matching _ := iff_of_false List.not_mem_nil List.not_mem_nil
  sizes _ h := absurd h List.not_mem_nil

def sayHi : UploadCall :=
  ⟨.owner, 7, ⟨some "hi.txt", some "text/plain", ⟨[[104], [105]], none⟩⟩⟩

def recoverableHere (_ : Nat) (_ : World) (o : Op) (c : Choice) : Bool :=
  match o with
  | .commit => c.fault ≠ some .lostReply ∧ c.fault ≠ some .cancelledAfter
  | .closeObject _ true | .unlinkObject _ | .rollback => c.fault = none
  | _ => true

theorem recoverable_of_here {i : Nat} {W : World} {o : Op} {c : Choice}
    (h : recoverableHere i W o c = true) : recoverable i W o c := by
  unfold recoverableHere at h
  unfold recoverable
  split at h
  all_goals exact of_decide_eq_true h

/-- Of two uploads, the commit of the second fails: its object goes, that of the first stays. -/
theorem uploads_are_atomic_hi :
    ∃ pool : ((uploads .plain ⟨⟨false, 300, 30⟩, 10⟩).system (fun _ _ => True) undoable
        BesideUploads).Pool,
      System.Reachable (World.fresh Db.ticketed) pool ∧
      (pool.threads 1).error? = some .databaseError ∧
      pool.shared.objects.map (·.content) = [[104, 105]] ∧ pool.shared.Matched := by
  let system := (uploads .plain ⟨⟨false, 300, 30⟩, 10⟩).system (fun _ _ => True) undoable
    BesideUploads
  let moves : List (System.Move UploadCall Choice Empty) := [
    .start 0 sayHi, .start 1 sayHi, .ops 0 (List.replicate 5 { uuid := 2 }),
    .ops 1 (List.replicate 9 { uuid := 3 } ++ [{ fault := some .database }] ++
      List.replicate 2 { uuid := 0 }), .finish 1,
    .ops 0 (List.replicate 6 { uuid := 2 }), .finish 0]
  let player : system.Player Choice Empty := (uploads .plain ⟨⟨false, 300, 30⟩, 10⟩).playerOf
    BesideUploads (fun _ _ => true) (fun _ _ _ => trivial)
    (fun i W o c => recoverableHere i W o c && c.fault ≠ some .cancelledAfter)
    fun i W o c h => by
      rw [Bool.and_eq_true] at h
      exact ⟨recoverable_of_here h.1, fun _ _ _ => of_decide_eq_true h.2⟩
  let observed (pool : system.Pool) :=
    (decide (pool.threads 0).Resting, (pool.threads 1).error?, pool.shared.objects.map (·.content))
  obtain ⟨pool, hplay, hobs⟩ := Option.map_eq_some_iff.mp
    (show (player.replay moves (.init (World.fresh Db.ticketed))).map observed =
      some (true, some .databaseError, [[104, 105]]) by decide +kernel)
  obtain ⟨h₀, hobs⟩ := Prod.mk.inj hobs
  obtain ⟨h₁, hobjects⟩ := Prod.mk.inj hobs
  have hreach : System.Reachable (World.fresh Db.ticketed) pool := player.replay_steps hplay
  refine ⟨pool, hreach, h₁, hobjects, ((uploads_are_atomic .plain ⟨⟨false, 300, 30⟩, 10⟩
    (World.quiet_fresh _) matched_ticketed hreach).1 fun i => ?_).1⟩
  match i with
  | 0 => exact of_decide_eq_true h₀
  | 1 =>
    obtain ⟨c, hc⟩ := System.Thread.error?_eq_some.mp h₁
    rw [hc]
    trivial
  | i + 2 =>
    have hidle : pool.threads (i + 2) = .idle :=
      player.replay_threads hplay
        (show some (i + 2) ∉ [some 0, some 1, some 0, some 1, some 1, some 0, some 0] by simp)
    rw [hidle]
    trivial

/-- **A call cancelled during its `open` leaves an object without a row.** The thread creates the
file all the same, and `created` is not set: nothing removes it. -/
theorem cancelled_open_leaves_object :
    ¬ ∀ (P : Platform) (S : TicketCollaborationService) (W₀ : World) (_ : W₀.Quiet)
      (_ : W₀.Matched)
      (pool : ((uploads P S).system (fun _ _ => True) recoverable BesideUploads).Pool)
      (_ : System.Reachable W₀ pool) (_ : ∀ i, (pool.threads i).Resting), pool.shared.Matched := by
  intro hall
  let system := (uploads .plain ⟨⟨false, 300, 30⟩, 10⟩).system (fun _ _ => True) recoverable
    BesideUploads
  let moves : List (System.Move UploadCall Choice Empty) := [
    .start 0 sayHi, .ops 0 [{ uuid := 2 }, { uuid := 2 }, { fault := some .cancelledAfter }],
    .finish 0]
  let player : system.Player Choice Empty := (uploads .plain ⟨⟨false, 300, 30⟩, 10⟩).playerOf
    BesideUploads (fun _ _ => true) (fun _ _ _ => trivial) recoverableHere
    fun _ _ _ _ => recoverable_of_here
  let observed (pool : system.Pool) := (decide (pool.threads 0).Resting,
    pool.shared.objects.map (·.key), (pool.shared.store.db .ticketAttachments).length)
  obtain ⟨pool, hplay, hobs⟩ := Option.map_eq_some_iff.mp
    (show (player.replay moves (.init (World.fresh Db.ticketed))).map observed =
      some (true, [objectKey 1 7 2], 0) by decide +kernel)
  obtain ⟨h₀, hobs⟩ := Prod.mk.inj hobs
  obtain ⟨hobjects, hrows⟩ := Prod.mk.inj hobs
  have hmatched := hall .plain _ _ (World.quiet_fresh _) matched_ticketed pool
    (player.replay_steps hplay) fun i => by
      match i with
      | 0 => exact of_decide_eq_true h₀
      | i + 1 =>
        have hidle : pool.threads (i + 1) = .idle :=
          player.replay_threads hplay (show some (i + 1) ∉ [some 0, some 0, some 0] by simp)
        rw [hidle]
        trivial
  have hkey := (hmatched.matching (objectKey 1 7 2)).mp (by
    rw [hobjects]
    exact List.mem_singleton_self _)
  rw [List.eq_nil_of_length_eq_zero hrows] at hkey
  exact List.not_mem_nil hkey

end Ticketing
