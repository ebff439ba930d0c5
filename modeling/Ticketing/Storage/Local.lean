import Ticketing.Lib.FileTree
import Ticketing.Lib.Regex
import Ticketing.Model.World

/-!
# `storage/local.py`

The methods of `LocalAttachmentStorage`, run one after the other.

* `_OBJECT_KEY_PATTERN` and `_resolve` are `objectKeyPattern` and `resolveKey`. The file tree has no
  links, so that `Path.resolve` only drops `.` and steps back for `..` (`resolve`).
* A `ChunkStream` is what `async for chunk in chunks` meets: the chunks it yields and the exception
  it then raises, if any. `write` makes the parents of its file, creates it and appends chunk by
  chunk (`drain`); a failure deletes the file again.
* `read` yields chunks of `read_chunk_size` bytes, of a file that is read in one go.
* `WriteOnce` is what the storage is for: a map from keys to contents in which a key is written once
  until it is deleted.

Results:
* **`refines_write_once`**: any sequence of calls on any tree does what it would do to that map
  (`RefinesWriteOnce`), and changes nothing that is not strictly under the root, but that it makes
  the root directory and its parents where they are missing.
* **`write_makes_root`**: on a fresh volume the first write does make them.

Out of scope: names over 255 bytes and full disks, on which the system calls raise errors of their
own; and that the bytes of the buffered file reach the disk when it is closed, which nothing reads
before.
-/

namespace Ticketing

open Lib (FileTree Node OsError Path Regex)
open Lib.FileTree (bind_ok bind_error try_ok try_error)

/-- `path.resolve()`. -/
def resolve : Path → Path
  | [] => []
  | c :: p =>
    if c = "" ∨ c = "." then resolve p
    else if c = ".." then (resolve p).tail
    else c :: resolve p

/-- What a call of the storage raises. -/
inductive StorageError
  | invalidObjectKey
  | os (e : OsError)
  /-- Raised by the stream of chunks. -/
  | stream (e : Exn)
  deriving DecidableEq, Repr

structure ChunkStream where
  chunks : List Bytes
  failure : Option Exn

def ChunkStream.content (s : ChunkStream) : Bytes := s.chunks.flatten

structure LocalAttachmentStorage where
  root : Path
  resolved : resolve root = root
  readChunkSize : Nat
  positive : 1 ≤ readChunkSize

namespace LocalAttachmentStorage

abbrev Disk := EStateM StorageError FileTree

def os {α : Type} (x : FileTree.Io α) : Disk α := EStateM.adaptExcept .os x

/-- `[A-Za-z0-9_-]`. -/
def isKeyChar (c : Char) : Bool :=
  ('A' ≤ c && c ≤ 'Z') || ('a' ≤ c && c ≤ 'z') || ('0' ≤ c && c ≤ '9') || c = '_' || c = '-'

/-- `_OBJECT_KEY_PATTERN`; `fullmatch` makes its anchors idle. -/
def objectKeyPattern : Regex :=
  .seq (.many 1 (.one isKeyChar)) (.many 0 (.seq (.one (· = '/')) (.many 1 (.one isKeyChar))))

/-- `object_key.split("/")`. -/
def segments (key : String) : List String := (key.toList.splitOn '/').map String.ofList

variable (S : LocalAttachmentStorage)

/-- `_resolve`. -/
def resolveKey (key : String) : Disk Path := do
  if ¬ objectKeyPattern.fullmatch key then throw .invalidObjectKey
  let target := resolve ((segments key).reverse ++ S.root)
  if ¬ S.root.isSuffixOf target then throw .invalidObjectKey
  return target

/-- `async for chunk in chunks: size += output.write(chunk)`. -/
def drain (target : Path) (failure : Option Exn) : List Bytes → Nat → Disk Nat
  | [], size => match failure with
    | none => return size
    | some e => throw (.stream e)
  | chunk :: chunks, size => do
    os (FileTree.append chunk target)
    drain target failure chunks (size + chunk.length)

def write (key : String) (stream : ChunkStream) : Disk Nat := do
  let target ← S.resolveKey key
  os (FileTree.mkdirParents target.tail)
  -- an `open` that raises leaves nothing to undo
  os (FileTree.make (.file []) target)
  try drain target stream.failure stream.chunks 0
  catch e => do
    os (FileTree.unlinkMissingOk target)
    throw e

def exists_ (key : String) : Disk Bool := do
  os (FileTree.isFile (← S.resolveKey key))

/-- `while chunk := stream.read(size): yield chunk`; no file has more chunks than bytes. -/
def readLoop (size : Nat) : Nat → Bytes → List Bytes
  | 0, _ => []
  | fuel + 1, content =>
    let chunk := content.take size
    if chunk = [] then [] else chunk :: readLoop size fuel (content.drop size)

/-- The chunks that `read` yields. -/
def read (key : String) : Disk (List Bytes) := do
  let content ← os (FileTree.content (← S.resolveKey key))
  return readLoop S.readChunkSize content.length content

def delete (key : String) : Disk Unit := do
  os (FileTree.unlinkMissingOk (← S.resolveKey key))

/-! ## Keys and paths -/

/-- A non-empty text of key characters. -/
def IsSegment (s : List Char) : Prop := s ≠ [] ∧ ∀ c ∈ s, isKeyChar c = true

/-- One or more segments, joined by single slashes. -/
def Valid (key : String) : Prop :=
  ∃ segs : List (List Char), segs ≠ [] ∧ (∀ s ∈ segs, IsSegment s) ∧
    key.toList = ['/'].intercalate segs

theorem lang_many_one {p : Char → Bool} {s : List Char} :
    (Regex.many 1 (.one p)).Lang s ↔ s ≠ [] ∧ ∀ c ∈ s, p c = true := by
  simp only [Regex.Lang]
  constructor
  · rintro ⟨pieces, hm, hp, rfl⟩
    refine ⟨fun h => ?_, fun c hc => ?_⟩
    · obtain ⟨u, hu⟩ := List.exists_mem_of_length_pos (by omega : 0 < pieces.length)
      obtain ⟨c, -, rfl⟩ := hp u hu
      exact absurd (List.flatten_eq_nil_iff.mp h _ hu) (by simp)
    · obtain ⟨u, hu, hc⟩ := List.mem_flatten.mp hc
      obtain ⟨d, hd, rfl⟩ := hp u hu
      rwa [List.mem_singleton.mp hc]
  · rintro ⟨hne, hs⟩
    refine ⟨s.map fun c => [c], by rw [List.length_map]; exact List.length_pos_iff.mpr hne, ?_, ?_⟩
    · intro u hu
      obtain ⟨c, hc, rfl⟩ := List.mem_map.mp hu
      exact ⟨c, hs c hc, rfl⟩
    · exact (List.flatMap_singleton' s).symm.trans (List.flatMap_def ..)

theorem intercalate_slash (u : List Char) (us : List (List Char)) :
    ['/'].intercalate (u :: us) = u ++ (us.map ('/' :: ·)).flatten := by
  induction us generalizing u with
  | nil => simp [List.intercalate]
  | cons v us ih =>
    rw [show ['/'].intercalate (u :: v :: us) = u ++ '/' :: ['/'].intercalate (v :: us) by
      simp [List.intercalate, List.intersperse], ih]
    simp

theorem plain_objectKeyPattern : objectKeyPattern.Plain := by
  refine ⟨⟨trivial, ?_⟩, ⟨trivial, trivial, ?_⟩, ?_⟩
  · rintro ⟨c, -, h⟩
    cases h
  · rintro ⟨c, -, h⟩
    cases h
  · rintro ⟨u, v, ⟨c, -, rfl⟩, -, h⟩
    cases h

/-- The pattern says what a key is. -/
theorem fullmatch_iff_valid (key : String) : objectKeyPattern.fullmatch key = true ↔ Valid key := by
  rw [Regex.fullmatch_iff plain_objectKeyPattern, objectKeyPattern, Regex.Lang]
  constructor
  · rintro ⟨u, v, hu, ⟨pieces, -, hp, rfl⟩, he⟩
    have hpieces : ∃ us : List (List Char), pieces = us.map ('/' :: ·) ∧ ∀ s ∈ us, IsSegment s := by
      clear he
      induction pieces with
      | nil => exact ⟨[], rfl, (by simp)⟩
      | cons x xs ih =>
        rw [List.forall_mem_cons] at hp
        obtain ⟨us, rfl, hus⟩ := ih hp.2
        obtain ⟨a, s, ⟨c, hc, rfl⟩, hs, rfl⟩ := hp.1
        obtain rfl : c = '/' := by simpa using hc
        exact ⟨s :: us, rfl, List.forall_mem_cons.mpr ⟨lang_many_one.mp hs, hus⟩⟩
    obtain ⟨us, rfl, hus⟩ := hpieces
    exact ⟨u :: us, by simp, List.forall_mem_cons.mpr ⟨lang_many_one.mp hu, hus⟩,
      he.trans (intercalate_slash u us).symm⟩
  · rintro ⟨segs, hne, hs, he⟩
    obtain ⟨u, us, rfl⟩ := List.exists_cons_of_ne_nil hne
    rw [List.forall_mem_cons] at hs
    refine ⟨u, _, lang_many_one.mpr hs.1, ⟨us.map ('/' :: ·), Nat.zero_le _, ?_, rfl⟩,
      he.trans (intercalate_slash u us)⟩
    intro x hx
    obtain ⟨s, hsu, rfl⟩ := List.mem_map.mp hx
    exact ⟨['/'], s, ⟨'/', rfl, rfl⟩, lang_many_one.mpr (hs.2 s hsu), rfl⟩

instance (key : String) : Decidable (Valid key) := decidable_of_iff _ (fullmatch_iff_valid key)

/-- The file of a key. -/
def path (key : String) : Path := (segments key).reverse ++ S.root

/-- The segments of a valid key: no step of a path that leads up. -/
theorem segments_of_valid {key : String} (h : Valid key) :
    segments key ≠ [] ∧ ∀ s ∈ segments key, s ≠ "" ∧ s ≠ "." ∧ s ≠ ".." := by
  obtain ⟨segs, hne, hs, he⟩ := h
  have hsplit : segments key = segs.map String.ofList := by
    rw [segments, he, List.splitOn_intercalate '/' _ hne]
    intro l hl hslash
    exact absurd ((hs l hl).2 _ hslash) (by decide)
  rw [hsplit]
  refine ⟨by simpa using hne, fun s hmem => ?_⟩
  obtain ⟨l, hl, rfl⟩ := List.mem_map.mp hmem
  obtain ⟨hnil, hc⟩ := hs l hl
  have no {d : List Char} (hd : ∃ c ∈ d, isKeyChar c = false) :
      String.ofList l ≠ String.ofList d := by
    intro heq
    obtain ⟨c, hcd, hfalse⟩ := hd
    rw [hc c (String.ofList_injective heq ▸ hcd)] at hfalse
    cases hfalse
  exact ⟨fun h => hnil (String.ofList_injective h), no (d := ['.']) ⟨'.', by simp, by decide⟩,
    no (d := ['.', '.']) ⟨'.', by simp, by decide⟩⟩

theorem segments_injective : Function.Injective segments := by
  intro k k' h
  have h := List.map_injective_iff.mpr (fun _ _ => String.ofList_injective) h
  have := congrArg (['/'].intercalate ·) h
  simp only [List.intercalate_splitOn] at this
  exact String.toList_injective this

theorem path_injective : Function.Injective S.path := fun _ _ h =>
  segments_injective (List.reverse_injective (List.append_cancel_right h))

theorem resolve_append {segs : List String} (h : ∀ s ∈ segs, s ≠ "" ∧ s ≠ "." ∧ s ≠ "..")
    (p : Path) :
    resolve (segs ++ p) = segs ++ resolve p := by
  induction segs with
  | nil => rfl
  | cons s segs ih =>
    rw [List.forall_mem_cons] at h
    rw [List.cons_append, resolve, if_neg (by simp [h.1]), if_neg h.1.2.2, ih h.2, List.cons_append]

theorem resolveKey_valid {key : String} (h : Valid key) (t : FileTree) :
    S.resolveKey key t = .ok (S.path key) t := by
  have htarget : resolve ((segments key).reverse ++ S.root) = S.path key := by
    rw [resolve_append (fun s hs => (segments_of_valid h).2 s (by simpa using hs)),
      S.resolved, path]
  have hroot : S.root.isSuffixOf (S.path key) = true := by
    rw [List.isSuffixOf_iff_suffix]
    exact List.suffix_append ..
  simp only [resolveKey, (fullmatch_iff_valid key).mpr h, htarget, hroot]
  rfl

theorem resolveKey_invalid {key : String} (h : ¬ Valid key) (t : FileTree) :
    S.resolveKey key t = .error .invalidObjectKey t := by
  have : objectKeyPattern.fullmatch key = false := by
    rw [← Bool.not_eq_true, fullmatch_iff_valid]
    exact h
  simp only [resolveKey, this]
  rfl

/-- The path lies strictly under the root. -/
def Under (p : Path) : Prop := ∃ segs, segs ≠ [] ∧ p = segs ++ S.root

/-- The path is the root or a parent of it, missing in `t` and a directory in `t'`. -/
structure RootMade (t t' : FileTree) (p : Path) : Prop where
  parent : p <:+ S.root
  missing : t.node p = none
  made : t'.node p = some .dir

theorem under_path {key : String} (h : Valid key) : S.Under (S.path key) :=
  ⟨_, by simpa using (segments_of_valid h).1, rfl⟩

/-! ## What each call does to the tree -/

variable {S}

theorem os_ok {α : Type} {x : FileTree.Io α} {t t' : FileTree} {a : α} (h : x t = .ok a t') :
    os x t = .ok a t' := by
  rw [os, EStateM.adaptExcept, h]

theorem os_error {α : Type} {x : FileTree.Io α} {t t' : FileTree} {e : OsError}
    (h : x t = .error e t') : os x t = .error (.os e) t' := by
  rw [os, EStateM.adaptExcept, h]

/-- The chunks go to the end of the file, until the stream is over or raises. -/
theorem drain_spec {c : String} {p : Path} (failure : Option Exn) (chunks : List Bytes)
    {size : Nat} {t : FileTree} {content : Bytes} (h : t.node (c :: p) = some (.file content)) :
    ∃ t', t'.node (c :: p) = some (.file (content ++ chunks.flatten)) ∧
      (∀ q, q ≠ c :: p → t'.node q = t.node q) ∧
      drain (c :: p) failure chunks size t = match failure with
        | none => .ok (size + chunks.flatten.length) t'
        | some e => .error (.stream e) t' := by
  induction chunks generalizing size t content with
  | nil =>
    refine ⟨t, by simpa using h, fun _ _ => rfl, ?_⟩
    cases failure <;> rfl
  | cons chunk chunks ih =>
    obtain ⟨hp, hc, happ⟩ := FileTree.append_spec h chunk
    obtain ⟨t', hfile, hrest, hrun⟩ := @ih (size + chunk.length) _
      (content ++ chunk) (FileTree.put_self hp hc)
    refine ⟨t', by rw [hfile]; simp [List.append_assoc], fun q hq => ?_, ?_⟩
    · rw [hrest q hq, FileTree.put_of_ne hp hc hq]
    · rw [drain, bind_ok (os_ok happ), hrun]
      simp [Nat.add_assoc]

/-- A write either makes the file of an absent key, or raises and leaves nothing but directories. -/
theorem write_spec {key : String} (hv : Valid key) (stream : ChunkStream) (t : FileTree) :
    (∃ t', S.write key stream t = .ok stream.content.length t' ∧ stream.failure = none ∧
        t.node (S.path key) = none ∧ t'.node (S.path key) = some (.file stream.content) ∧
        ∀ q, q ≠ S.path key → t'.node q = t.node q ∨
          q <:+ S.path key ∧ t.node q = none ∧ t'.node q = some .dir) ∨
      ∃ e t', S.write key stream t = .error e t' ∧ e ≠ .invalidObjectKey ∧
        (t.node (S.path key) ≠ none ∨ FileTree.Blocked (S.path key).tail t ∨
          ∃ e, stream.failure = some e) ∧
        FileTree.Widened (S.path key).tail t t' := by
  have hr := S.resolveKey_valid hv t
  obtain ⟨c, p, hpath⟩ : ∃ c p, S.path key = c :: p := by
    refine List.exists_cons_of_ne_nil fun h => (segments_of_valid hv).1 ?_
    have := (List.append_eq_nil_iff.mp h).1
    simpa using this
  rw [write, bind_ok hr, hpath]
  have hself : ∀ q, q <:+ p → q ≠ c :: p := fun q hq h => by
    have := List.IsSuffix.length_le hq
    rw [h, List.length_cons] at this
    omega
  rcases FileTree.mkdirParents_spec p t with ⟨t₁, hmk, hdir, hw⟩ | ⟨e, hmk, hblocked⟩
  swap
  · exact .inr ⟨_, t, bind_error (os_error hmk), nofun, .inr (.inl hblocked), fun q => .inl rfl⟩
  rw [List.tail_cons, bind_ok (os_ok hmk)]
  have hnode : t₁.node (c :: p) = t.node (c :: p) := by
    rcases hw (c :: p) with h | ⟨hs, -⟩
    · exact h
    · exact absurd rfl (hself _ hs)
  rcases FileTree.make_eq_error_or (t := t₁) (.file []) c p with
    ⟨hp, hc, hnone, hm⟩ | ⟨e, hm, hwhy⟩
  swap
  · refine .inr ⟨_, t₁, bind_error (os_error hm), nofun, .inl ?_, hw⟩
    rcases hwhy with h | h
    · rwa [hnode] at h
    · exact absurd hdir h
  rw [bind_ok (os_ok hm)]
  obtain ⟨t₂, hfile, hrest, hrun⟩ := @drain_spec _ _ stream.failure stream.chunks 0 _ _
    (FileTree.put_self hp hc)
  rw [List.nil_append] at hfile
  cases hf : stream.failure with
  | none =>
    rw [hf, Nat.zero_add] at hrun
    refine .inl ⟨t₂, try_ok hrun, rfl, hnode ▸ hnone, hfile, fun q hq => ?_⟩
    rw [hrest q hq, FileTree.put_of_ne hp hc hq]
    exact (hw q).imp_right fun ⟨hs, h⟩ => ⟨hs.trans (List.suffix_cons c p), h⟩
  | some e =>
    rw [hf] at hrun
    rcases FileTree.unlinkMissingOk_spec (t := t₂) c p with ⟨content, hp', hc', -, hu⟩ | ⟨h, -⟩
    · refine .inr ⟨.stream e, _, (try_error hrun).trans ((bind_ok (os_ok hu)).trans rfl), nofun,
        .inr (.inr ⟨e, rfl⟩), fun q => ?_⟩
      by_cases hq : q = c :: p
      · subst hq
        exact .inl ((FileTree.put_self hp' hc').trans (hnode ▸ hnone).symm)
      · rw [FileTree.put_of_ne hp' hc' hq, hrest q hq, FileTree.put_of_ne hp hc hq]
        exact hw q
    · exact absurd hfile (h _)

theorem flatten_readLoop {size : Nat} (hs : 1 ≤ size) {fuel : Nat} {content : Bytes}
    (hf : content.length ≤ fuel) : (readLoop size fuel content).flatten = content := by
  induction fuel generalizing content with
  | zero => simpa [readLoop, eq_comm] using hf
  | succ fuel ih =>
    rw [readLoop]
    split_ifs with h
    · rw [List.take_eq_nil_iff] at h
      rcases h with h | h
      · omega
      · simp [h]
    · rw [List.flatten_cons, ih, List.take_append_drop]
      rw [List.length_drop]
      omega

theorem ne_nil_of_mem_readLoop {size fuel : Nat} {content chunk : Bytes}
    (h : chunk ∈ readLoop size fuel content) : chunk ≠ [] := by
  induction fuel generalizing content with
  | zero => cases h
  | succ fuel ih =>
    rw [readLoop] at h
    split_ifs at h with hempty
    · cases h
    · rcases List.mem_cons.mp h with rfl | h
      · exact hempty
      · exact ih h

end LocalAttachmentStorage

/-! ## The abstract model: a map whose values are written once -/

inductive StorageCall
  | write (key : String) (stream : ChunkStream)
  | read (key : String)
  | exists_ (key : String)
  | delete (key : String)

def StorageCall.key : StorageCall → String
  | write key _ | read key | exists_ key | delete key => key

inductive StorageAnswer
  | size (n : Nat)
  | chunks (cs : List Bytes)
  | truth (b : Bool)
  | done
  | raised (e : StorageError)

namespace WriteOnce

abbrev Map := String → Option Bytes

/-- What a call with a valid key may answer, and the map after it. -/
inductive Step (m : Map) : StorageCall → StorageAnswer → Map → Prop
  | write {key : String} {stream : ChunkStream} (absent : m key = none)
      (whole : stream.failure = none) :
      Step m (.write key stream) (.size stream.content.length)
        (Function.update m key (some stream.content))
  | writeRaises {key : String} {stream : ChunkStream} {e : StorageError} :
      Step m (.write key stream) (.raised e) m
  | read {key : String} {cs : List Bytes} (present : m key = some cs.flatten) :
      Step m (.read key) (.chunks cs) m
  | readRaises {key : String} {e : StorageError} (absent : m key = none) :
      Step m (.read key) (.raised e) m
  | exists_ {key : String} : Step m (.exists_ key) (.truth (m key).isSome) m
  | delete {key : String} : Step m (.delete key) .done (Function.update m key none)
  | deleteRaises {key : String} {e : StorageError} (absent : m key = none) :
      Step m (.delete key) (.raised e) m

/-- A sequence of calls; one whose key is not valid is refused. -/
inductive Run (valid : String → Prop) : Map → List (StorageCall × StorageAnswer) → Map → Prop
  | nil {m : Map} : Run valid m [] m
  | call {m m₁ m₂ : Map} {c : StorageCall} {a : StorageAnswer}
      {rest : List (StorageCall × StorageAnswer)} (hv : valid c.key) (hs : Step m c a m₁)
      (h : Run valid m₁ rest m₂) : Run valid m ((c, a) :: rest) m₂
  | refused {m m₂ : Map} {c : StorageCall} {rest : List (StorageCall × StorageAnswer)}
      (hv : ¬ valid c.key) (h : Run valid m rest m₂) :
      Run valid m ((c, .raised .invalidObjectKey) :: rest) m₂

/-- What a history of calls and answers leaves under a key: the last that was written and not
deleted. -/
def stored (key : String) (before : Option Bytes) :
    List (StorageCall × StorageAnswer) → Option Bytes
  | [] => before
  | (.write k stream, .size _) :: rest =>
    stored key (if k = key then some stream.content else before) rest
  | (.delete k, .done) :: rest => stored key (if k = key then none else before) rest
  | _ :: rest => stored key before rest

theorem stored_of_run {valid : String → Prop} {m m' : Map}
    {history : List (StorageCall × StorageAnswer)} (h : Run valid m history m') (key : String) :
    m' key = stored key (m key) history := by
  induction h with
  | nil => rfl
  | call _ hs _ ih =>
    rw [ih]
    cases hs with
    | write | delete => simp only [stored, Function.update_apply, eq_comm]
    | writeRaises | read | readRaises | exists_ | deleteRaises => rfl
  | @refused m m₂ c rest _ _ ih =>
    rw [ih]
    cases c <;> rfl

end WriteOnce

namespace LocalAttachmentStorage

variable (S : LocalAttachmentStorage)

def answer {α : Type} (f : α → StorageAnswer) :
    EStateM.Result StorageError FileTree α → StorageAnswer × FileTree
  | .ok a t => (f a, t)
  | .error e t => (.raised e, t)

def perform : StorageCall → FileTree → StorageAnswer × FileTree
  | .write key stream, t => answer .size (S.write key stream t)
  | .read key, t => answer .chunks (S.read key t)
  | .exists_ key, t => answer .truth (S.exists_ key t)
  | .delete key, t => answer (fun _ => .done) (S.delete key t)

/-- The calls with their answers, and the tree after them. -/
def run : List StorageCall → FileTree → List (StorageCall × StorageAnswer) × FileTree
  | [], t => ([], t)
  | c :: cs, t =>
    let (a, t') := S.perform c t
    let (history, t'') := run cs t'
    ((c, a) :: history, t'')

/-- The stored objects: the content of the file of each key. -/
def objects (t : FileTree) : WriteOnce.Map := fun key =>
  if Valid key then
    match t.node (S.path key) with
    | some (.file content) => some content
    | _ => none
  else none

variable {S}

theorem objects_eq_some {t : FileTree} {key : String} (hv : Valid key) {content : Bytes} :
    S.objects t key = some content ↔ t.node (S.path key) = some (.file content) := by
  rw [objects, if_pos hv]
  rcases FileTree.node_cases (t := t) (S.path key) with h | h | ⟨b, h⟩ <;> simp [h]

theorem objects_eq_none {t : FileTree} {key : String} (hv : Valid key) :
    S.objects t key = none ↔ ∀ content, t.node (S.path key) ≠ some (.file content) := by
  simp only [Option.eq_none_iff_forall_ne_some, ne_eq, objects_eq_some hv]

/-- Files elsewhere do not change: neither do the other objects. -/
theorem objects_congr {t t' : FileTree} {key : String}
    (h : ∀ content, t'.node (S.path key) = some (.file content) ↔
      t.node (S.path key) = some (.file content)) : S.objects t' key = S.objects t key := by
  by_cases hv : Valid key
  · ext content
    rw [objects_eq_some hv, objects_eq_some hv, h]
  · rw [objects, objects, if_neg hv, if_neg hv]

/-! ## The storage refines the map -/

/-- Two trees with the same files, but for directories made on the way, hold the same objects. -/
theorem objects_of_widened {p : Path} {t t' : FileTree} (h : FileTree.Widened p t t') :
    S.objects t' = S.objects t := by
  funext key
  refine objects_congr fun content => ?_
  rcases h (S.path key) with h | ⟨-, hn, hd⟩
  · rw [h]
  · simp [hn, hd]

theorem objects_of_put {t t' : FileTree} {key : String} (hv : Valid key) {value : Option Bytes}
    (hself : ∀ content, t'.node (S.path key) = some (.file content) ↔ value = some content)
    (hrest : ∀ q, q ≠ S.path key → ∀ content, t'.node q = some (.file content) ↔
      t.node q = some (.file content)) :
    S.objects t' = Function.update (S.objects t) key value := by
  funext k
  by_cases hk : k = key
  · subst hk
    rw [Function.update_self]
    ext content
    rw [objects_eq_some hv, hself]
  · rw [Function.update_of_ne hk]
    exact objects_congr fun content => hrest _ (fun h => hk (S.path_injective h)) content

theorem perform_invalid {call : StorageCall} (hv : ¬ Valid call.key) (t : FileTree) :
    S.perform call t = (.raised .invalidObjectKey, t) := by
  have hr (key : String) (h : ¬ Valid key) := S.resolveKey_invalid h t
  cases call with
  | write key stream => rw [perform, write, bind_error (hr key hv), answer]
  | read key => rw [perform, read, bind_error (hr key hv), answer]
  | exists_ key => rw [perform, exists_, bind_error (hr key hv), answer]
  | delete key => rw [perform, delete, bind_error (hr key hv), answer]

theorem path_eq_cons {key : String} (hv : Valid key) : ∃ c p, S.path key = c :: p := by
  refine List.exists_cons_of_ne_nil fun h => (segments_of_valid hv).1 ?_
  simpa using (List.append_eq_nil_iff.mp h).1

/-- **One call refines one step of the map.** -/
theorem perform_step {call : StorageCall} (hv : Valid call.key) (t : FileTree) :
    WriteOnce.Step (S.objects t) call (S.perform call t).1 (S.objects (S.perform call t).2) := by
  cases call with
  | write key stream =>
    replace hv : Valid key := hv
    rcases write_spec (S := S) hv stream t with
      ⟨t', hrun, hwhole, habsent, hfile, hrest⟩ | ⟨e, t', hrun, -, -, hw⟩
    · rw [perform, hrun, answer]
      have hobj : S.objects t' = Function.update (S.objects t) key (some stream.content) := by
        refine objects_of_put hv (fun content => by simp [hfile]) fun q hq content => ?_
        rcases hrest q hq with h | ⟨-, hn, hd⟩
        · rw [h]
        · simp [hn, hd]
      rw [hobj]
      exact .write ((objects_eq_none hv).mpr (by rw [habsent]; nofun)) hwhole
    · rw [perform, hrun, answer, objects_of_widened hw]
      exact .writeRaises
  | read key =>
    replace hv : Valid key := hv
    obtain ⟨c, p, hpath⟩ := path_eq_cons (S := S) hv
    rw [perform, read, bind_ok (S.resolveKey_valid hv t), hpath]
    rcases FileTree.content_spec (t := t) c p with ⟨b, hb, hc⟩ | ⟨hno, e, hc⟩
    · rw [bind_ok (os_ok hc)]
      refine .read ?_
      rw [flatten_readLoop S.positive (Nat.le_refl _), objects_eq_some hv, hpath, hb]
    · rw [bind_error (os_error hc)]
      exact .readRaises ((objects_eq_none hv).mpr (hpath ▸ hno))
  | exists_ key =>
    replace hv : Valid key := hv
    have hrun : S.exists_ key t = .ok (S.objects t key).isSome t := by
      rw [exists_, bind_ok (S.resolveKey_valid hv t), os_ok (a := (S.objects t key).isSome)]
      rw [FileTree.isFile, objects, if_pos hv]
      rcases FileTree.node_cases (t := t) (S.path key) with h | h | ⟨b, h⟩ <;> simp [h]
    rw [perform, hrun]
    exact .exists_
  | delete key =>
    replace hv : Valid key := hv
    obtain ⟨c, p, hpath⟩ := path_eq_cons (S := S) hv
    rw [perform, delete, bind_ok (S.resolveKey_valid hv t), hpath]
    rcases FileTree.unlinkMissingOk_spec (t := t) c p with ⟨b, hp, hc, -, hu⟩ | ⟨hno, hu | ⟨e, hu⟩⟩
    · have hobj : S.objects (t.put c p none hp hc) = Function.update (S.objects t) key none := by
        refine objects_of_put hv (fun content => ?_) fun q hq content => ?_
        · rw [hpath, FileTree.put_self]
          simp
        · rw [FileTree.put_of_ne hp hc (hpath ▸ hq)]
      rw [os_ok hu, answer, hobj]
      exact .delete
    · rw [os_ok hu, answer]
      have hnone : S.objects t key = none := (objects_eq_none hv).mpr (hpath ▸ hno)
      have := @WriteOnce.Step.delete (S.objects t) key
      rwa [Function.update_eq_self_iff.mpr hnone.symm] at this
    · rw [os_error hu, answer]
      exact .deleteRaises ((objects_eq_none hv).mpr (hpath ▸ hno))

/-- What a call changes: it lies strictly under the root, or is the root or a parent of it, that was
missing and is made a directory. -/
theorem perform_confined {t : FileTree} (call : StorageCall) {q : Path}
    (h : (S.perform call t).2.node q ≠ t.node q) :
    S.Under q ∨ S.RootMade t (S.perform call t).2 q := by
  by_cases hv : Valid call.key
  swap
  · rw [perform_invalid hv] at h
    exact absurd rfl h
  have hnew {key : String} {q : Path} {t' : FileTree} (hq : q <:+ S.path key)
      (hn : t.node q = none) (hd : t'.node q = some .dir) : S.Under q ∨ S.RootMade t t' q := by
    rcases List.suffix_or_suffix_of_suffix hq (List.suffix_append _ S.root) with hs | ⟨segs, rfl⟩
    · exact .inr ⟨hs, hn, hd⟩
    · rcases segs with _ | ⟨s, segs⟩
      · exact .inr ⟨List.suffix_rfl, hn, hd⟩
      · exact .inl ⟨_, List.cons_ne_nil _ _, rfl⟩
  cases call with
  | write key stream =>
    replace hv : Valid key := hv
    rcases write_spec (S := S) hv stream t with
      ⟨t', hrun, -, -, -, hrest⟩ | ⟨e, t', hrun, -, -, hw⟩
    · rw [perform, hrun, answer] at h ⊢
      by_cases hq : q = S.path key
      · exact .inl (hq ▸ S.under_path hv)
      · rcases hrest q hq with heq | ⟨hs, hn, hd⟩
        · exact absurd heq h
        · exact hnew hs hn hd
    · rw [perform, hrun, answer] at h ⊢
      rcases hw q with heq | ⟨hs, hn, hd⟩
      · exact absurd heq h
      · exact hnew (hs.trans (List.tail_suffix _)) hn hd
  | read key =>
    replace hv : Valid key := hv
    obtain ⟨c, p, hpath⟩ := path_eq_cons (S := S) hv
    rw [perform, read, bind_ok (S.resolveKey_valid hv t), hpath] at h
    rcases FileTree.content_spec (t := t) c p with ⟨b, -, hc⟩ | ⟨-, e, hc⟩
    · rw [bind_ok (os_ok hc)] at h
      exact absurd rfl h
    · rw [bind_error (os_error hc)] at h
      exact absurd rfl h
  | exists_ key =>
    replace hv : Valid key := hv
    rw [perform, exists_, bind_ok (S.resolveKey_valid hv t)] at h
    exact absurd rfl h
  | delete key =>
    replace hv : Valid key := hv
    obtain ⟨c, p, hpath⟩ := path_eq_cons (S := S) hv
    rw [perform, delete, bind_ok (S.resolveKey_valid hv t), hpath] at h
    rcases FileTree.unlinkMissingOk_spec (t := t) c p with ⟨b, hp, hc, -, hu⟩ | ⟨-, hu | ⟨e, hu⟩⟩
    · rw [os_ok hu, answer] at h
      by_cases hq : q = c :: p
      · exact .inl (hq ▸ hpath ▸ S.under_path hv)
      · exact absurd (FileTree.put_of_ne hp hc hq) h
    · rw [os_ok hu, answer] at h
      exact absurd rfl h
    · rw [os_error hu, answer] at h
      exact absurd rfl h

theorem not_under_root : ¬ S.Under S.root := by
  rintro ⟨segs, hne, h⟩
  exact hne (List.self_eq_append_left.mp h)

/-- A run refines a run of the map. -/
theorem run_refines (calls : List StorageCall) (t : FileTree) :
    WriteOnce.Run Valid (S.objects t) (S.run calls t).1 (S.objects (S.run calls t).2) := by
  induction calls generalizing t with
  | nil => exact .nil
  | cons call calls ih =>
    have hrun := ih (S.perform call t).2
    by_cases hv : Valid call.key
    · exact .call hv (perform_step hv t) hrun
    · rw [perform_invalid hv] at hrun
      rw [run, perform_invalid hv]
      exact .refused hv hrun

/-- What a run changes (`perform_confined`). -/
theorem run_confined (calls : List StorageCall) {t : FileTree} {q : Path}
    (hq : (S.run calls t).2.node q ≠ t.node q) :
    S.Under q ∨ S.RootMade t (S.run calls t).2 q := by
  induction calls generalizing t with
  | nil => exact absurd rfl hq
  | cons call calls ih =>
    have hlast := @ih (S.perform call t).2
    have hfirst (h : (S.perform call t).2.node q ≠ t.node q) := perform_confined call h
    show S.Under q ∨ S.RootMade t (S.run calls (S.perform call t).2).2 q
    by_cases h : (S.run calls (S.perform call t).2).2.node q = (S.perform call t).2.node q
    · refine (hfirst fun heq => hq (h.trans heq)).imp_right fun hmade => ?_
      exact ⟨hmade.parent, hmade.missing, h.trans hmade.made⟩
    · rcases hlast h with hunder | hmade
      · exact .inl hunder
      · by_cases heq : (S.perform call t).2.node q = t.node q
        · exact .inr ⟨hmade.parent, heq.symm.trans hmade.missing, hmade.made⟩
        · rcases hfirst heq with hunder | hmade'
          · exact .inl hunder
          · -- what the first call has made is there for the others
            have hnone := hmade.missing
            rw [hmade'.made] at hnone
            cases hnone

/-- Nothing but a taken key, a file among its parents or its own stream makes a write raise. -/
theorem write_succeeds {key : String} (hv : Valid key) {stream : ChunkStream} {t : FileTree}
    (hfree : t.node (S.path key) = none) (hparents : ¬ FileTree.Blocked (S.path key).tail t)
    (hwhole : stream.failure = none) :
    ∃ t', S.write key stream t = .ok stream.content.length t' := by
  rcases write_spec (S := S) hv stream t with ⟨t', hrun, -⟩ | ⟨e, t', -, -, h | h | ⟨e', h⟩, -⟩
  · exact ⟨t', hrun⟩
  · exact absurd hfree h
  · exact absurd h hparents
  · rw [hwhole] at h
    cases h

/-- What is promised of a sequence of calls on the tree `t`. -/
structure RefinesWriteOnce (S : LocalAttachmentStorage) (t : FileTree)
    (calls : List StorageCall) : Prop where
  /-- The calls answer as the map does and leave the map's objects. -/
  refines : WriteOnce.Run Valid (S.objects t) (S.run calls t).1 (S.objects (S.run calls t).2)
  /-- Under every key is what was last written and not deleted. -/
  stored : ∀ key, S.objects (S.run calls t).2 key =
    WriteOnce.stored key (S.objects t key) (S.run calls t).1
  /-- What changes lies strictly under the root, but for the root and its parents where they were
  missing: these are made. -/
  confined : ∀ q, (S.run calls t).2.node q ≠ t.node q →
    S.Under q ∨ S.RootMade t (S.run calls t).2 q
  /-- Where the root is there, what changes lies strictly under it. -/
  rooted : t.node S.root = some .dir → ∀ q, (S.run calls t).2.node q ≠ t.node q → S.Under q
  /-- A key that is not valid is refused and changes nothing. -/
  refused : ∀ (call : StorageCall) (t₁ : FileTree), ¬ Valid call.key →
    S.perform call t₁ = (.raised .invalidObjectKey, t₁)
  /-- Every file the calls use lies strictly under the root. -/
  under : ∀ key, Valid key → S.Under (S.path key) ∧
    ∀ t₁, S.resolveKey key t₁ = .ok (S.path key) t₁
  /-- Distinct keys share no file. -/
  injective : ∀ key key', S.path key = S.path key' → key = key'
  /-- A write to a free key raises only if a file stands among its parents or its stream raises. -/
  succeeds : ∀ (key : String) (stream : ChunkStream) (t₁ : FileTree), Valid key →
    t₁.node (S.path key) = none → ¬ FileTree.Blocked (S.path key).tail t₁ →
    stream.failure = none → ∃ t₂, S.write key stream t₁ = .ok stream.content.length t₂

/-- **The storage is a write-once map confined to its root**, on any file tree. -/
theorem refines_write_once (S : LocalAttachmentStorage) (t : FileTree)
    (calls : List StorageCall) : RefinesWriteOnce S t calls where
  refines := S.run_refines calls t
  stored key := WriteOnce.stored_of_run (S.run_refines calls t) key
  confined _ := run_confined calls
  rooted hroot q hq := by
    rcases run_confined calls hq with hunder | hmade
    · exact hunder
    · -- no parent of a directory is missing
      have hparent : t.node q = some .dir := by
        by_cases he : q = S.root
        · rw [he, hroot]
        · exact FileTree.node_of_suffix hmade.parent he (by rw [hroot]; nofun)
      rw [hmade.missing] at hparent
      cases hparent
  refused _ t₁ hv := perform_invalid hv t₁
  under _ hv := ⟨S.under_path hv, S.resolveKey_valid hv⟩
  injective _ _ h := S.path_injective h
  succeeds _ _ _ hv hfree hparents hwhole := write_succeeds hv hfree hparents hwhole

/-- A volume with nothing on it. -/
def freshVolume : FileTree where
  node p := if p = [] then some .dir else none
  top := rfl
  parent c p h := absurd (if_neg (List.cons_ne_nil c p)) h

/-- **The first write on a fresh volume makes the root directory** of a storage at
`/var/attachments`, and `/var`: what it changes is not all strictly under the root. -/
theorem write_makes_root :
    let S : LocalAttachmentStorage := ⟨["attachments", "var"], by decide, 65536, by decide⟩
    let t := (S.run [.write "a" ⟨[[1]], none⟩] freshVolume).2
    t.node (S.path "a") = some (.file [1]) ∧ t.node S.root ≠ freshVolume.node S.root ∧
      t.node ["var"] ≠ freshVolume.node ["var"] ∧ ¬ S.Under S.root ∧ ¬ S.Under ["var"] := by
  refine ⟨by decide +kernel, by decide +kernel, by decide +kernel, not_under_root, ?_⟩
  rintro ⟨segs, -, h⟩
  have hlength := congrArg List.length h
  simp at hlength

end LocalAttachmentStorage

end Ticketing
