import FerroHttp.StaticFiles

/-!
# StaticFiles.FsAssets — the files below a root directory

`FsAssets` serves the regular files below its root. The calls of the file system are a
parameter, with any outcome each; paths are those of Unix, so they are bytes. Both `load`
and `existsAt` look a name up by the same steps, written out twice in the source.

1. `existsAt_iff`: the probe finds what a name resolves to;
2. `load_eq_some_iff`: the load also needs the contents.
-/

namespace FerroHttp

open Text

/-! ## Paths -/

/-- A path of the file system. -/
abbrev FilePath := Bytes

inductive Component where
  | rootDir
  | curDir
  | parentDir
  | normal (part : Bytes)
deriving DecidableEq, Repr

namespace FilePath

def isAbsolute (path : FilePath) : Bool := path.head? == some 0x2f

/-- `Path::components`: empty segments are dropped, and so is `.`, but at the front of a
relative path. -/
def components (path : FilePath) : List Component :=
  let segments := path.splitOn 0x2f
  let front :=
    if path.isAbsolute then [.rootDir]
    else if segments.head? == some [0x2e] then [.curDir]
    else []
  front ++ segments.filterMap fun segment =>
    if segment = [] ∨ segment = [0x2e] then none
    else if segment = [0x2e, 0x2e] then some .parentDir
    else some (.normal segment)

/-- `Path::join`: an absolute path replaces the base. -/
def join (base path : FilePath) : FilePath :=
  if path.isAbsolute then path
  else if base = [] ∨ base.getLast? = some 0x2f then base ++ path
  else base ++ 0x2f :: path

/-- `Path::starts_with`: whole components only. -/
def startsWith (path base : FilePath) : Bool := base.components.isPrefixOf path.components

end FilePath

/-! ## The file system -/

inductive FileType where
  | file
  | dir
  | symlink
  | other
deriving DecidableEq, Repr

/-- What a `stat` reports; the modification time is in nanoseconds of Unix time, if the
platform has one. -/
structure Metadata where
  fileType : FileType
  modified : Option Int
deriving DecidableEq, Repr

/-- The calls of `std::fs` on a tree that nobody changes; `none` is an error. -/
structure Fs where
  canonicalize : FilePath → Option FilePath
  symlinkMetadata : FilePath → Option Metadata
  metadata : FilePath → Option Metadata
  read : FilePath → Option Bytes

/-- The modification time in whole seconds, none if it lies before 1970. -/
def Metadata.mtime (m : Metadata) : Option Nat :=
  m.modified.bind fun t => if 0 ≤ t then some (t / 1000000000).toNat else none

def Metadata.isFile (m : Metadata) : Bool := m.fileType == .file

/-! ## The asset source -/

/-- A directory served from the file system. -/
structure FsAssets where
  root : FilePath
  followSymlinks : Bool
deriving DecidableEq, Repr

namespace FsAssets

/-- Some component below `path` is a symbolic link, or cannot be examined. -/
def traversesSymlink (fs : Fs) : FilePath → List Component → Bool
  | _, [] => false
  | path, .normal part :: rest =>
    match fs.symlinkMetadata (path.join part) with
    | some m => if m.fileType == .symlink then true else traversesSymlink fs (path.join part) rest
    | none => true
  | path, .curDir :: rest => traversesSymlink fs path rest
  | _, _ :: _ => true

def load (fs : Fs) (a : FsAssets) (relPath : String) : Option Asset := do
  let canonicalRoot ← fs.canonicalize a.root
  let candidate ← fs.canonicalize (canonicalRoot.join (utf8 relPath))
  if !candidate.startsWith canonicalRoot then none
  else if !a.followSymlinks &&
      traversesSymlink fs canonicalRoot (FilePath.components (utf8 relPath)) then none
  else
    let m ← fs.metadata candidate
    if !m.isFile then none
    else
      let bytes ← fs.read candidate
      some ⟨bytes, m.mtime⟩

def existsAt (fs : Fs) (a : FsAssets) (relPath : String) : Bool :=
  match fs.canonicalize a.root with
  | none => false
  | some canonicalRoot =>
    match fs.canonicalize (canonicalRoot.join (utf8 relPath)) with
    | none => false
    | some candidate =>
      if !candidate.startsWith canonicalRoot then false
      else if !a.followSymlinks &&
          traversesSymlink fs canonicalRoot (FilePath.components (utf8 relPath)) then false
      else
        match fs.metadata candidate with
        | some m => m.isFile
        | none => false

/-- The assets of a file system below a root. -/
def source (fs : Fs) (a : FsAssets) : AssetSource := ⟨a.load fs, a.existsAt fs⟩

/-! ## Resolution -/

/-- The name resolves to a regular file inside the root, past the symbolic links that may
be followed. -/
structure Resolves (fs : Fs) (a : FsAssets) (relPath : String) (root file : FilePath)
    (m : Metadata) : Prop where
  canonicalRoot : fs.canonicalize a.root = some root
  candidate : fs.canonicalize (root.join (utf8 relPath)) = some file
  inside : file.startsWith root = true
  links : a.followSymlinks = true ∨
    traversesSymlink fs root (FilePath.components (utf8 relPath)) = false
  metadata : fs.metadata file = some m
  regular : m.isFile = true

/-- The name resolves to a file that can be read. -/
def Readable (fs : Fs) (a : FsAssets) (relPath : String) : Prop :=
  ∃ root file m, a.Resolves fs relPath root file m ∧ (fs.read file).isSome = true

/-- The name resolves to a file that cannot be read. -/
def Unreadable (fs : Fs) (a : FsAssets) (relPath : String) : Prop :=
  ∃ root file m, a.Resolves fs relPath root file m ∧ fs.read file = none

section Resolution

variable {fs : Fs} {a : FsAssets} {relPath : String}

/-- A name resolves to one file. -/
theorem Resolves.unique {root file root' file' : FilePath} {m m' : Metadata}
    (h : a.Resolves fs relPath root file m) (h' : a.Resolves fs relPath root' file' m') :
    file = file' := by
  have hroot : root = root' := Option.some.inj (h.canonicalRoot.symm.trans h'.canonicalRoot)
  subst hroot
  exact Option.some.inj (h.candidate.symm.trans h'.candidate)

theorem links_iff {root : FilePath} :
    (!a.followSymlinks && traversesSymlink fs root (FilePath.components (utf8 relPath))) = false ↔
      a.followSymlinks = true ∨
        traversesSymlink fs root (FilePath.components (utf8 relPath)) = false := by
  cases a.followSymlinks <;> simp

/-- The probe finds what a name resolves to. -/
theorem existsAt_iff :
    a.existsAt fs relPath = true ↔ ∃ root file m, a.Resolves fs relPath root file m := by
  constructor
  · intro h
    unfold existsAt at h
    cases hroot : fs.canonicalize a.root with
    | none => simp [hroot] at h
    | some root =>
      cases hfile : fs.canonicalize (root.join (utf8 relPath)) with
      | none => simp [hroot, hfile] at h
      | some file =>
        simp only [hroot, hfile] at h
        split at h
        · cases h
        · rename_i hinside
          split at h
          · cases h
          · rename_i hlinks
            cases hmeta : fs.metadata file with
            | none => simp [hmeta] at h
            | some m =>
              simp only [hmeta] at h
              exact ⟨root, file, m, hroot, hfile, by simpa using hinside,
                links_iff.mp (by simpa using hlinks), hmeta, h⟩
  · intro h
    obtain ⟨root, file, m, h⟩ := h
    have hlinks := links_iff.mpr h.links
    simp only [existsAt, h.canonicalRoot, h.candidate, h.inside, hlinks, h.metadata, h.regular, Bool.not_true,
      Bool.false_eq_true, if_false]

/-- The load also needs the contents. -/
theorem load_eq_some_iff {asset : Asset} :
    a.load fs relPath = some asset ↔
      ∃ root file m bytes, a.Resolves fs relPath root file m ∧ fs.read file = some bytes ∧
        asset = ⟨bytes, m.mtime⟩ := by
  constructor
  · intro h
    simp only [load, Option.bind_eq_bind, Option.bind_eq_some_iff] at h
    obtain ⟨root, hroot, file, hfile, h⟩ := h
    split at h
    · cases h
    · rename_i hinside
      split at h
      · cases h
      · rename_i hlinks
        rw [Option.bind_eq_some_iff] at h
        obtain ⟨m, hmeta, h⟩ := h
        split at h
        · cases h
        · rename_i hregular
          rw [Option.bind_eq_some_iff] at h
          obtain ⟨bytes, hread, h⟩ := h
          cases h
          exact ⟨root, file, m, bytes, ⟨hroot, hfile, by simpa using hinside,
            links_iff.mp (by simpa using hlinks), hmeta, by simpa using hregular⟩, hread, rfl⟩
  · intro h
    obtain ⟨root, file, m, bytes, h, hread, rfl⟩ := h
    have hlinks := links_iff.mpr h.links
    simp only [load, h.canonicalRoot, h.candidate, h.inside, hlinks, h.metadata, h.regular, hread, Bool.not_true,
      Bool.false_eq_true, if_false, Option.bind_eq_bind, Option.bind_some]

theorem load_isSome_iff : (a.load fs relPath).isSome = true ↔ a.Readable fs relPath := by
  rw [Option.isSome_iff_exists]
  constructor
  · intro h
    obtain ⟨asset, hload⟩ := h
    obtain ⟨root, file, m, bytes, hresolves, hread, _⟩ := load_eq_some_iff.mp hload
    exact ⟨root, file, m, hresolves, by rw [hread]; rfl⟩
  · intro h
    obtain ⟨root, file, m, hresolves, hread⟩ := h
    obtain ⟨bytes, hbytes⟩ := Option.isSome_iff_exists.mp hread
    exact ⟨_, load_eq_some_iff.mpr ⟨root, file, m, bytes, hresolves, hbytes, rfl⟩⟩

/-- What resolves is readable or unreadable, and not both. -/
theorem resolves_iff :
    (∃ root file m, a.Resolves fs relPath root file m) ↔
      a.Readable fs relPath ∨ a.Unreadable fs relPath := by
  constructor
  · intro h
    obtain ⟨root, file, m, hresolves⟩ := h
    cases hread : fs.read file with
    | none => exact .inr ⟨root, file, m, hresolves, hread⟩
    | some bytes => exact .inl ⟨root, file, m, hresolves, by rw [hread]; rfl⟩
  · intro h
    rcases h with ⟨root, file, m, hresolves, _⟩ | ⟨root, file, m, hresolves, _⟩
    · exact ⟨root, file, m, hresolves⟩
    · exact ⟨root, file, m, hresolves⟩

theorem Unreadable.not_readable (h : a.Unreadable fs relPath) : ¬ a.Readable fs relPath := by
  intro hreadable
  obtain ⟨root, file, m, hresolves, hread⟩ := h
  obtain ⟨root', file', m', hresolves', hread'⟩ := hreadable
  rw [← hresolves.unique hresolves', hread] at hread'
  cases hread'

/-- The probe and the load differ on the unreadable files. -/
theorem existsAt_eq_iff :
    a.existsAt fs relPath = (a.load fs relPath).isSome ↔ ¬ a.Unreadable fs relPath := by
  rw [Bool.eq_iff_iff, existsAt_iff, resolves_iff, load_isSome_iff]
  constructor
  · intro h hunreadable
    exact hunreadable.not_readable (h.mp (.inr hunreadable))
  · intro h
    constructor
    · intro hor
      exact hor.resolve_right h
    · exact .inl

end Resolution

end FsAssets

end FerroHttp
