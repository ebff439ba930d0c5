import Mathlib.Data.List.Infix
import Mathlib.Logic.Function.Basic

/-!
# A file system without links

A path is the list of its components, the last one first, so that `c :: p` is the entry `c` of the
directory `p`. A `FileTree` says what is at each path; that it has an entry only in a directory,
and that its top is one, is carried by its fields.

* `make`, `append`, `unlink`, `content`, `isDir` and `isFile` are the system calls behind
  `pathlib`. Each raises the error of the call (`OsError`), in the order in which the kernel
  checks; what a computation did before it raised stays done (`Io`).
* `mkdirParents` and `unlinkMissingOk` are `Path.mkdir(parents=True, exist_ok=True)` and
  `Path.unlink(missing_ok=True)`, with the handlers of `pathlib`.

Results:
* `make_cons`, `append_spec`, `content_spec`: what one call does to the tree, and in which cases
  it raises.
* `mkdirParents_spec`: a directory made with its parents adds directories on the way down to its
  path and nothing else (`Widened`); it raises only where a file stands in the way (`Blocked`),
  and then has changed nothing.
* `unlinkMissingOk_spec`: a file is deleted; without one nothing changes.

Out of scope: links, permissions, a full disk, the length of names, and what a crash of the
machine leaves behind. The calls of several processes are those of the caller, one after the
other.
-/

namespace Ticketing.Lib

abbrev Path := List String

inductive Node
  | file (content : List UInt8)
  | dir
  deriving DecidableEq, Repr

inductive OsError
  | fileNotFound
  | fileExists
  | notADirectory
  | isADirectory
  deriving DecidableEq, Repr

structure FileTree where
  node : Path → Option Node
  top : node [] = some .dir
  parent : ∀ c p, node (c :: p) ≠ none → node p = some .dir

namespace FileTree

/-- A computation on a file tree that may raise; what it did before stays done. -/
abbrev Io := EStateM OsError FileTree

/-- The tree with the entry `c` of the directory `p` changed; a directory stays. -/
def put (t : FileTree) (c : String) (p : Path) (n : Option Node) (hp : t.node p = some .dir)
    (hc : t.node (c :: p) ≠ some .dir) : FileTree where
  node := Function.update t.node (c :: p) n
  top := by rw [Function.update_of_ne (List.cons_ne_nil c p).symm, t.top]
  parent d q hq := by
    by_cases heq : d :: q = c :: p
    · obtain ⟨-, rfl⟩ := List.cons.inj heq
      rw [Function.update_of_ne (List.cons_ne_self c q).symm, hp]
    · rw [Function.update_of_ne heq] at hq
      have hqd := t.parent d q hq
      rw [Function.update_of_ne (by rintro rfl; exact hc hqd), hqd]

/-- The directory `p`, looked up. -/
def lookup (p : Path) : Io Unit := fun t =>
  if t.node p = some .dir then .ok () t
  else if p.tails.any fun q => match t.node q with
    | some (.file _) => true
    | _ => false
  then .error .notADirectory t
  else .error .fileNotFound t

/-- `os.mkdir(path)` and `open(path, "xb")`: a new entry, which must not be there. -/
def make (n : Node) : Path → Io Unit
  | [] => throw .fileExists
  | c :: p => fun t =>
    if hp : t.node p = some .dir then
      if hc : t.node (c :: p) = none then .ok () (t.put c p (some n) hp (by rw [hc]; nofun))
      else .error .fileExists t
    else (do lookup p; throw .fileNotFound : Io Unit) t

/-- What is written to an open file goes to its end. -/
def append (chunk : List UInt8) : Path → Io Unit
  | [] => throw .isADirectory
  | c :: p => fun t =>
    match hc : t.node (c :: p) with
    | some (.file content) =>
      .ok () (t.put c p (some (.file (content ++ chunk))) (t.parent c p (by rw [hc]; nofun))
        (by rw [hc]; nofun))
    | _ => .error .fileNotFound t

/-- `os.unlink(path)`. -/
def unlink : Path → Io Unit
  | [] => throw .isADirectory
  | c :: p => fun t =>
    match hc : t.node (c :: p) with
    | some (.file _) =>
      .ok () (t.put c p none (t.parent c p (by rw [hc]; nofun)) (by rw [hc]; nofun))
    | some .dir => .error .isADirectory t
    | none => (do lookup p; throw .fileNotFound : Io Unit) t

/-- `open(path, "rb")`, read to the end. -/
def content : Path → Io (List UInt8)
  | [] => throw .isADirectory
  | c :: p => fun t =>
    match t.node (c :: p) with
    | some (.file content) => .ok content t
    | some .dir => .error .isADirectory t
    | none => (do lookup p; throw .fileNotFound : Io (List UInt8)) t

/-- `os.path.isdir(path)`. -/
def isDir (p : Path) : Io Bool := fun t => .ok (t.node p = some .dir) t

/-- `os.path.isfile(path)`. -/
def isFile (p : Path) : Io Bool := fun t =>
  .ok (match t.node p with
    | some (.file _) => true
    | _ => false) t

/-- `Path.mkdir(exist_ok=True)`, without its parents. -/
def mkdirExistOk (p : Path) : Io Unit := do
  try make .dir p
  catch e => unless e ≠ .fileNotFound && (← isDir p) do throw e

/-- `Path.mkdir(parents=True, exist_ok=True)`. -/
def mkdirParents : Path → Io Unit
  | [] => mkdirExistOk []
  | c :: p => do
    try make .dir (c :: p)
    catch e =>
      if e = .fileNotFound then do
        mkdirParents p
        mkdirExistOk (c :: p)
      else unless ← isDir (c :: p) do throw e

/-- `Path.unlink(missing_ok=True)`. -/
def unlinkMissingOk (p : Path) : Io Unit := do
  try unlink p
  catch e => unless e = .fileNotFound do throw e

variable {t : FileTree} {c : String} {p q : Path}

@[simp] theorem put_self {n : Option Node} (hp : t.node p = some .dir)
    (hc : t.node (c :: p) ≠ some .dir) : (t.put c p n hp hc).node (c :: p) = n :=
  Function.update_self ..

theorem put_of_ne {n : Option Node} (hp : t.node p = some .dir)
    (hc : t.node (c :: p) ≠ some .dir) (h : q ≠ c :: p) : (t.put c p n hp hc).node q = t.node q :=
  Function.update_of_ne h ..

theorem node_cases (p : Path) :
    t.node p = none ∨ t.node p = some .dir ∨ ∃ content, t.node p = some (.file content) :=
  match t.node p with
  | none => .inl rfl
  | some .dir => .inr (.inl rfl)
  | some (.file content) => .inr (.inr ⟨content, rfl⟩)

/-- The directories a path lies in. -/
theorem node_of_suffix (hs : q <:+ p) (hne : q ≠ p) (hp : t.node p ≠ none) :
    t.node q = some .dir := by
  induction p with
  | nil => exact absurd (List.suffix_nil.mp hs) hne
  | cons c p ih =>
    have hpar := t.parent c p hp
    rcases List.suffix_cons_iff.mp hs with rfl | hs
    · exact absurd rfl hne
    by_cases hqp : q = p
    · exact hqp ▸ hpar
    · exact ih hs hqp (by rw [hpar]; nofun)

/-- A lookup that fails raises, and changes nothing. -/
theorem lookup_eq (p : Path) :
    (t.node p = some .dir ∧ lookup p t = .ok () t) ∨
      t.node p ≠ some .dir ∧ ((lookup p t = .error .notADirectory t ∧
        ∃ q content, q <:+ p ∧ t.node q = some (.file content)) ∨
        lookup p t = .error .fileNotFound t) := by
  unfold lookup
  split_ifs with hd ha
  · exact .inl ⟨hd, rfl⟩
  · refine .inr ⟨hd, .inl ⟨rfl, ?_⟩⟩
    obtain ⟨q, hq, hf⟩ := List.any_eq_true.mp ha
    split at hf
    · exact ⟨q, _, (List.mem_tails _ _).mp hq, ‹_›⟩
    · cases hf
  · exact .inr ⟨hd, .inr rfl⟩

section Run

variable {ε α β : Type} {x : EStateM ε FileTree α} {t' : FileTree} {a : α} {e : ε}

theorem bind_ok {f : α → EStateM ε FileTree β} (hx : x t = .ok a t') : (x >>= f) t = f a t' := by
  show EStateM.bind x f t = _
  rw [EStateM.bind, hx]

theorem bind_error {f : α → EStateM ε FileTree β} (hx : x t = .error e t') :
    (x >>= f) t = .error e t' := by
  show EStateM.bind x f t = _
  rw [EStateM.bind, hx]

theorem try_ok {h : ε → EStateM ε FileTree α} (hx : x t = .ok a t') :
    tryCatch x h t = .ok a t' := by
  show EStateM.tryCatch x h t = _
  rw [EStateM.tryCatch, hx]

theorem try_error {h : ε → EStateM ε FileTree α} (hx : x t = .error e t') :
    tryCatch x h t = h e t' := by
  show EStateM.tryCatch x h t = _
  rw [EStateM.tryCatch, hx]
  rfl

end Run

/-- How a new entry is made: in its directory, where there was none. -/
theorem make_cons (n : Node) (c : String) (p : Path) :
    (∃ hp hc, t.node (c :: p) = none ∧
        make n (c :: p) t = .ok () (t.put c p (some n) hp hc)) ∨
      (t.node p = some .dir ∧ t.node (c :: p) ≠ none ∧ make n (c :: p) t = .error .fileExists t) ∨
      (t.node p ≠ some .dir ∧ make n (c :: p) t = .error .notADirectory t ∧
        ∃ q content, q <:+ p ∧ t.node q = some (.file content)) ∨
      (t.node p ≠ some .dir ∧ make n (c :: p) t = .error .fileNotFound t) := by
  by_cases hp : t.node p = some .dir
  · by_cases hc : t.node (c :: p) = none
    · exact .inl ⟨hp, by rw [hc]; nofun, hc, by simp [make, hp, hc]⟩
    · exact .inr (.inl ⟨hp, hc, by simp [make, hp, hc]⟩)
  · have hmake : make n (c :: p) t = (do lookup p; throw .fileNotFound : Io Unit) t := by
      simp [make, hp]
    rcases lookup_eq (t := t) p with ⟨hd, -⟩ | ⟨-, ⟨hl, hq⟩ | hl⟩
    · exact absurd hd hp
    · refine .inr (.inr (.inl ⟨hp, ?_, hq⟩))
      rw [hmake, bind_error hl]
    · refine .inr (.inr (.inr ⟨hp, ?_⟩))
      rw [hmake, bind_error hl]

/-- The tree `t'` is `t` with more directories on the way to `p`. -/
def Widened (p : Path) (t t' : FileTree) : Prop :=
  ∀ q, t'.node q = t.node q ∨ q <:+ p ∧ t.node q = none ∧ t'.node q = some .dir

/-- Something on the way to `p` is a file. -/
def Blocked (p : Path) (t : FileTree) : Prop :=
  ∃ q content, q <:+ p ∧ t.node q = some (.file content)

theorem widened_put {hp hc} (hn : t.node (c :: p) = none) :
    Widened (c :: p) t (t.put c p (some .dir) hp hc) := by
  intro q
  by_cases hq : q = c :: p
  · subst hq
    exact .inr ⟨List.suffix_rfl, hn, put_self hp hc⟩
  · exact .inl (put_of_ne hp hc hq)

theorem unless_isDir (e : OsError) (p : Path) :
    (do unless ← isDir p do throw e : Io Unit) t =
      if t.node p = some .dir then .ok () t else .error e t := by
  by_cases h : t.node p = some .dir
  · simp [isDir, h, bind, EStateM.bind, pure, EStateM.pure]
  · simp only [isDir, h, bind, EStateM.bind]
    rfl

theorem mkdirParents_cons (c : String) (p : Path) :
    mkdirParents (c :: p) = tryCatch (make .dir (c :: p)) fun e =>
      if e = .fileNotFound then do
        mkdirParents p
        mkdirExistOk (c :: p)
      else (do unless ← isDir (c :: p) do throw e) := rfl

/-- **Making a directory with its parents** (module doc). -/
theorem mkdirParents_spec (p : Path) (t : FileTree) :
    (∃ t', mkdirParents p t = .ok () t' ∧ t'.node p = some .dir ∧ Widened p t t') ∨
      ∃ e, mkdirParents p t = .error e t ∧ Blocked p t := by
  induction p generalizing t with
  | nil =>
    refine .inl ⟨t, ?_, t.top, fun q => .inl rfl⟩
    have hmake : make .dir [] t = .error .fileExists t := rfl
    refine (try_error hmake).trans ?_
    simp [isDir, t.top, bind, EStateM.bind, pure, EStateM.pure]
  | cons c p ih =>
    rw [mkdirParents_cons]
    rcases make_cons (t := t) .dir c p with
      ⟨hp, hc, hn, hm⟩ | ⟨hp, hc, hm⟩ | ⟨hp, hm, hf⟩ | ⟨hp, hm⟩
    · exact .inl ⟨_, try_ok hm, put_self hp hc, widened_put hn⟩
    · -- the entry is there: a directory is what was wanted, a file is in the way
      rw [try_error hm, if_neg (by decide), unless_isDir]
      split_ifs with hd
      · exact .inl ⟨t, rfl, hd, fun q => .inl rfl⟩
      · refine .inr ⟨_, rfl, ?_⟩
        match hnode : t.node (c :: p) with
        | none => exact absurd hnode hc
        | some .dir => exact absurd hnode hd
        | some (.file content) => exact ⟨c :: p, content, List.suffix_rfl, hnode⟩
    · rw [try_error hm, if_neg (by decide), unless_isDir, if_neg]
      · obtain ⟨q, content, hq, hnode⟩ := hf
        exact .inr ⟨_, rfl, q, content, hq.trans (List.suffix_cons c p), hnode⟩
      · exact fun hd => hp (t.parent c p (by rw [hd]; nofun))
    · rw [try_error hm, if_pos rfl]
      have hnone : t.node (c :: p) = none := by
        by_contra hc
        exact hp (t.parent c p hc)
      rcases ih t with ⟨t', hmk, hd, hw⟩ | ⟨e, hmk, q, content, hq, hnode⟩
      · have hbind : (do mkdirParents p; mkdirExistOk (c :: p) : Io Unit) t =
            mkdirExistOk (c :: p) t' := bind_ok hmk
        rw [hbind]
        have hnone' : t'.node (c :: p) = none := by
          rcases hw (c :: p) with h | ⟨h, -, -⟩
          · rw [h, hnone]
          · exact absurd (List.IsSuffix.length_le h) (by simp)
        rcases make_cons (t := t') .dir c p with
          ⟨hp', hc', -, hm'⟩ | ⟨-, hc', -⟩ | ⟨hp', -⟩ | ⟨hp', -⟩
        · refine .inl ⟨_, try_ok hm', put_self hp' hc', fun q => ?_⟩
          rcases @widened_put t' c p hp' hc' hnone' q with h | ⟨hs, hn, h⟩
          · rcases hw q with h' | ⟨hs', hn', h'⟩
            · exact .inl (h.trans h')
            · exact .inr ⟨hs'.trans (List.suffix_cons c p), hn', h.trans h'⟩
          · rcases hw q with h' | ⟨-, -, h'⟩
            · exact .inr ⟨hs, h' ▸ hn, h⟩
            · rw [hn] at h'
              cases h'
        · exact absurd hnone' hc'
        · exact absurd hd hp'
        · exact absurd hd hp'
      · refine .inr ⟨e, ?_, q, content, hq.trans (List.suffix_cons c p), hnode⟩
        exact bind_error hmk

theorem make_eq_error_or (n : Node) (c : String) (p : Path) :
    (∃ hp hc, t.node (c :: p) = none ∧
        make n (c :: p) t = .ok () (t.put c p (some n) hp hc)) ∨
      ∃ e, make n (c :: p) t = .error e t ∧
        (t.node (c :: p) ≠ none ∨ t.node p ≠ some .dir) := by
  rcases make_cons (t := t) n c p with h | ⟨-, hc, hm⟩ | ⟨hp, hm, -⟩ | ⟨hp, hm⟩
  · exact .inl h
  · exact .inr ⟨_, hm, .inl hc⟩
  · exact .inr ⟨_, hm, .inr hp⟩
  · exact .inr ⟨_, hm, .inr hp⟩

theorem append_spec {content : List UInt8} (h : t.node (c :: p) = some (.file content))
    (chunk : List UInt8) :
    ∃ hp hc, append chunk (c :: p) t =
      .ok () (t.put c p (some (.file (content ++ chunk))) hp hc) := by
  refine ⟨t.parent c p (by rw [h]; nofun), by rw [h]; nofun, ?_⟩
  unfold append
  dsimp only
  split
  · rename_i b hb
    obtain rfl : content = b := by simpa [h] using hb
    rfl
  · rename_i hno
    exact absurd h (hno content)

/-- A lookup before a missing entry raises, whatever it finds. -/
theorem lookup_throw (α : Type) (p : Path) :
    ∃ e, ((do lookup p; throw .fileNotFound : Io α) t) = .error e t := by
  rcases lookup_eq (t := t) p with ⟨-, hl⟩ | ⟨-, ⟨hl, -⟩ | hl⟩
  · exact ⟨_, bind_ok hl⟩
  · exact ⟨_, bind_error hl⟩
  · exact ⟨_, bind_error hl⟩

/-- A file is deleted; without one nothing changes. -/
theorem unlinkMissingOk_spec (c : String) (p : Path) :
    (∃ content hp hc, t.node (c :: p) = some (.file content) ∧
        unlinkMissingOk (c :: p) t = .ok () (t.put c p none hp hc)) ∨
      (∀ content, t.node (c :: p) ≠ some (.file content)) ∧
        (unlinkMissingOk (c :: p) t = .ok () t ∨ ∃ e, unlinkMissingOk (c :: p) t = .error e t) := by
  have hrest : ∀ e, unlink (c :: p) t = .error e t →
      unlinkMissingOk (c :: p) t = .ok () t ∨ ∃ e, unlinkMissingOk (c :: p) t = .error e t := by
    intro e h
    rw [show unlinkMissingOk (c :: p) t = _ from try_error h]
    by_cases he : e = .fileNotFound
    · exact .inl (by rw [he]; rfl)
    · exact .inr ⟨e, by rw [if_neg he]; rfl⟩
  rcases node_cases (t := t) (c :: p) with hc | hc | ⟨content, hc⟩
  · obtain ⟨e, he⟩ := lookup_throw (t := t) Unit p
    refine .inr ⟨by rw [hc]; nofun, hrest e ?_⟩
    unfold unlink
    dsimp only
    split
    · rename_i h; rw [hc] at h; cases h
    · rename_i h; rw [hc] at h; cases h
    · exact he
  · refine .inr ⟨by rw [hc]; nofun, hrest .isADirectory ?_⟩
    unfold unlink
    dsimp only
    split
    · rename_i h; rw [hc] at h; cases h
    · rfl
    · rename_i h; rw [hc] at h; cases h
  · refine .inl ⟨content, t.parent c p (by rw [hc]; nofun), by rw [hc]; nofun, hc, try_ok ?_⟩
    unfold unlink
    dsimp only
    split
    · rfl
    · rename_i h; rw [hc] at h; cases h
    · rename_i h; rw [hc] at h; cases h

/-- Reading returns the content of a file, and raises where there is none. -/
theorem content_spec (c : String) (p : Path) :
    (∃ b, t.node (c :: p) = some (.file b) ∧ content (c :: p) t = .ok b t) ∨
      (∀ b, t.node (c :: p) ≠ some (.file b)) ∧ ∃ e, content (c :: p) t = .error e t := by
  unfold content
  dsimp only
  split
  · rename_i b hb
    exact .inl ⟨b, hb, rfl⟩
  · rename_i hd
    exact .inr ⟨by rw [hd]; nofun, _, rfl⟩
  · rename_i hn
    exact .inr ⟨by rw [hn]; nofun, lookup_throw _ p⟩

end FileTree

end Ticketing.Lib
