import FerroHttp.Lib.FileTree
import FerroHttp.StaticFiles.Containment
import FerroHttp.StaticFiles.FsAssets

/-!
# StaticFiles.Tree — what is served of a tree with symbolic links

The calls of the file system that `FsAssets` makes are tied to a tree of files, directories
and symbolic links (`Over`). Then:

1. `served_inside`: whatever the path, the index files and the links, what is served is a
   file of the tree below the root, and walking one of the names that the path stands for
   leads to it;
2. `nofollow_serves_lookup`: where links are not followed, serving a path is looking its
   name up in the tree.
-/

namespace FerroHttp

open Text FileTree

/-! ## Trees -/

/-- What is at a path; the bytes of a file that cannot be read are none. -/
inductive Content where
  | file (bytes : Option Bytes)
  | dir
  | link (target : FilePath)
  | other

structure Node where
  content : Content
  modified : Option Int

namespace Node

def metadata (n : Node) : Metadata :=
  match n.content with
  | .file _ => ⟨.file, n.modified⟩
  | .dir => ⟨.dir, n.modified⟩
  | .link _ => ⟨.symlink, n.modified⟩
  | .other => ⟨.other, n.modified⟩

/-- The bytes of a regular file. -/
def bytes (n : Node) : Option Bytes :=
  match n.content with
  | .file bytes => bytes
  | _ => none

def asset (n : Node) : Option Asset := n.bytes.map fun bytes => ⟨bytes, n.metadata.mtime⟩

end Node

/-- A name in a directory. -/
structure IsName (name : Bytes) : Prop where
  nonempty : name ≠ []
  noSlash : (0x2f : UInt8) ∉ name
  notDot : name ≠ [0x2e]
  notDotDot : name ≠ [0x2e, 0x2e]

theorem isName_iff {name : Bytes} : IsName name ↔
    name ≠ [] ∧ (0x2f : UInt8) ∉ name ∧ name ≠ [0x2e] ∧ name ≠ [0x2e, 0x2e] := by
  constructor
  · intro h
    exact ⟨h.nonempty, h.noSlash, h.notDot, h.notDotDot⟩
  · intro h
    exact ⟨h.1, h.2.1, h.2.2.1, h.2.2.2⟩

instance : DecidablePred IsName := fun _ => decidable_of_iff _ isName_iff.symm

/-- The part of the file system that the process can reach. -/
structure Tree where
  node : List Bytes → Option Node
  names : ∀ path name, (node path).isSome = true → name ∈ path → IsName name

/-- The tree of a list of nodes with their paths. -/
def Tree.ofList (nodes : List (List Bytes × Node)) (h : ∀ e ∈ nodes, ∀ name ∈ e.1, IsName name) :
    Tree where
  node path := (nodes.find? fun e => e.1 == path).map Prod.snd
  names := by
    intro path name hsome hmem
    rw [Option.isSome_map, Option.isSome_iff_exists] at hsome
    rcases hsome with ⟨e, he⟩
    have hpath : e.1 = path := by simpa using List.find?_some he
    exact h e (List.mem_of_find?_eq_some he) name (by rw [hpath]; exact hmem)

def Component.move : Component → FileTree.Move Bytes
  | .rootDir => .root
  | .curDir => .stay
  | .parentDir => .up
  | .normal part => .down part

namespace FilePath

def moves (path : FilePath) : List (FileTree.Move Bytes) := path.components.map Component.move

/-- The names of a path without `.` and `..`. -/
def plainNames (path : FilePath) : List Bytes := path.components.filterMap fun c =>
  match c with
  | .normal part => some part
  | _ => none

/-- The absolute path of a list of names. -/
def render (names : List Bytes) : FilePath :=
  if names = [] then [0x2f] else names.flatMap (0x2f :: ·)

end FilePath

namespace Tree

def kind (tree : Tree) (path : List Bytes) : Option (Kind Bytes) :=
  (tree.node path).map fun n =>
    match n.content with
    | .link target => .link target.moves
    | _ => .plain

/-- No link on the way, and nothing missing. -/
def isPlain (tree : Tree) (names : List Bytes) : Bool :=
  names.inits.all fun front => front.isEmpty ||
    (tree.node front).any fun n => n.metadata.fileType != .symlink

/-- The file at a list of names, if no link leads there. -/
def lookup (tree : Tree) (names : List Bytes) : Option Asset :=
  if tree.isPlain names then (tree.node names).bind Node.asset else none

/-- A regular file at a list of names, whether it can be read or not. -/
def hasFile (tree : Tree) (names : List Bytes) : Bool :=
  tree.isPlain names && (tree.node names).any fun n => n.metadata.isFile

/-- The names of a relative path. -/
def namesOf (relPath : String) : List Bytes := (split '/' relPath).map utf8

/-- The assets of the tree below a directory, by lookup. -/
def source (tree : Tree) (root : List Bytes) : AssetSource :=
  ⟨fun relPath => tree.lookup (root ++ namesOf relPath),
    fun relPath => tree.hasFile (root ++ namesOf relPath)⟩

end Tree

/-- The calls of a file system over a tree, in a working directory: `canonicalize` resolves
links, but it may give up on a path that has some, and `symlink_metadata` does not look
through one. -/
structure Over (tree : Tree) (cwd : List Bytes) (fs : Fs) : Prop where
  start : Plain tree.kind cwd
  canonicalize : ∀ path file, fs.canonicalize path = some file →
    ∃ names, Walks tree.kind cwd path.moves names ∧ file = FilePath.render names
  plain : ∀ names, Plain tree.kind names → (fs.canonicalize (.render names)).isSome = true
  symlinkMetadata : ∀ names name, Plain tree.kind names → IsName name →
    fs.symlinkMetadata (.render (names ++ [name])) =
      (tree.node (names ++ [name])).map Node.metadata
  metadata : ∀ names, Plain tree.kind names →
    fs.metadata (.render names) = (tree.node names).map Node.metadata
  read : ∀ names, Plain tree.kind names →
    fs.read (.render names) = (tree.node names).bind Node.bytes

/-- The file system of a tree; `canonicalize` gives up behind so many links. -/
def Tree.fs (tree : Tree) (links : Nat) (cwd : List Bytes) : Fs where
  canonicalize path := (resolve tree.kind links cwd path.moves).map .render
  symlinkMetadata path := (tree.node path.plainNames).map Node.metadata
  metadata path := (tree.node path.plainNames).map Node.metadata
  read path := (tree.node path.plainNames).bind Node.bytes

/-! ## Paths -/

section Paths

variable {tree : Tree} {names more root : List Bytes} {name : Bytes} {p : String}

theorem kind_eq_plain_iff : tree.kind names = some .plain ↔
    ∃ n, tree.node names = some n ∧ n.metadata.fileType ≠ .symlink := by
  unfold Tree.kind
  cases tree.node names with
  | none => simp
  | some n =>
    rcases n with ⟨content, modified⟩
    cases content <;> simp [Node.metadata]

theorem isPlain_iff : tree.isPlain names = true ↔ Plain tree.kind names := by
  unfold Tree.isPlain
  rw [List.all_eq_true]
  constructor
  · intro h front hfront hne
    have hplain := h front ((List.mem_inits _ _).mpr hfront)
    rw [Bool.or_eq_true, List.isEmpty_iff, Option.any_eq_true] at hplain
    rcases hplain.resolve_left hne with ⟨n, hn, hkind⟩
    exact kind_eq_plain_iff.mpr ⟨n, hn, by simpa using hkind⟩
  · intro h front hmem
    rw [Bool.or_eq_true, List.isEmpty_iff, Option.any_eq_true]
    by_cases hne : front = []
    · exact .inl hne
    · rcases kind_eq_plain_iff.mp (h front ((List.mem_inits _ _).mp hmem) hne) with ⟨n, hn, hkind⟩
      exact .inr ⟨n, hn, by simpa using hkind⟩

/-- The names on a way through the tree are names. -/
theorem isName_of_plain (h : Plain tree.kind names) : ∀ name ∈ names, IsName name := by
  intro name hmem
  have hne : names ≠ [] := List.ne_nil_of_mem hmem
  rcases kind_eq_plain_iff.mp (h names List.prefix_rfl hne) with ⟨n, hn, _⟩
  exact tree.names names name (by rw [hn]; rfl) hmem

/-- The segments of names behind slashes. -/
theorem splitOn_slashes {w : Bytes} (hw : (0x2f : UInt8) ∉ w)
    (h : ∀ name ∈ names, (0x2f : UInt8) ∉ name) :
    (w ++ names.flatMap (0x2f :: ·)).splitOn 0x2f = w :: names := by
  induction names generalizing w with
  | nil => rw [List.flatMap_nil, List.append_nil, List.splitOn_eq_singleton hw]
  | cons name names ih =>
    have hrest := ih (h name List.mem_cons_self) fun n hn => h n (List.mem_cons_of_mem _ hn)
    rw [List.flatMap_cons, List.cons_append, List.splitOn_append_cons_self, hrest,
      List.splitOn_eq_singleton hw]
    rfl

/-- Names are components of their own. -/
theorem filterMap_names (h : ∀ name ∈ names, IsName name) :
    (names.filterMap fun segment =>
      if segment = [] ∨ segment = [0x2e] then none
      else if segment = [0x2e, 0x2e] then some .parentDir
      else some (Component.normal segment)) = names.map .normal := by
  induction names with
  | nil => rfl
  | cons name names ih =>
    have hname := h name List.mem_cons_self
    rw [List.filterMap_cons, ih fun n hn => h n (List.mem_cons_of_mem _ hn), List.map_cons]
    simp only [hname.nonempty, hname.notDot, hname.notDotDot, or_self, if_false]

/-- The components of a rendered path are its names. -/
theorem components_render (h : ∀ name ∈ names, IsName name) :
    (FilePath.render names).components = .rootDir :: names.map .normal := by
  by_cases hempty : names = []
  · subst hempty
    decide
  · have hsplit : (names.flatMap (0x2f :: ·)).splitOn 0x2f = [] :: names := by
      have hslashes := splitOn_slashes (w := []) (by simp) fun name hmem => (h name hmem).noSlash
      rwa [List.nil_append] at hslashes
    have habsolute : FilePath.isAbsolute (names.flatMap (0x2f :: ·)) = true := by
      cases names with
      | nil => exact absurd rfl hempty
      | cons name names => rfl
    rw [FilePath.render, if_neg hempty, FilePath.components, hsplit, habsolute]
    have hnames := filterMap_names h
    simp only [if_true, List.filterMap_cons, true_or, List.singleton_append, hnames]

theorem moves_render (h : ∀ name ∈ names, IsName name) :
    (FilePath.render names).moves = .root :: names.map .down := by
  rw [FilePath.moves, components_render h, List.map_cons, List.map_map]
  rfl

theorem plainNames_render (h : ∀ name ∈ names, IsName name) :
    (FilePath.render names).plainNames = names := by
  rw [FilePath.plainNames, components_render h, List.filterMap_cons, List.filterMap_map]
  exact List.filterMap_some

/-- Below means with the same names in front. -/
theorem startsWith_render (h : ∀ name ∈ names, IsName name) (hroot : ∀ name ∈ root, IsName name) :
    (FilePath.render names).startsWith (.render root) = true ↔ root <+: names := by
  rw [FilePath.startsWith, components_render h, components_render hroot, List.isPrefixOf_iff_prefix,
    List.cons_prefix_cons]
  constructor
  · intro hprefix
    have hnames := hprefix.2.map fun c => match c with
      | Component.normal part => part
      | _ => []
    simpa [List.map_map, Function.comp_def] using hnames
  · intro hprefix
    exact ⟨rfl, hprefix.map _⟩

/-- A path that starts with a name is relative. -/
theorem isAbsolute_eq_false {path rest : Bytes} (hname : IsName name) (hpath : path = name ++ rest) :
    FilePath.isAbsolute path = false := by
  cases name with
  | nil => exact absurd rfl hname.nonempty
  | cons b tail =>
    have hb : b ≠ 0x2f := fun heq => hname.noSlash (by rw [heq]; exact List.mem_cons_self)
    rw [hpath, FilePath.isAbsolute]
    simpa using hb

/-- A relative path below a directory. -/
theorem join_render {path : FilePath} (hroot : ∀ name ∈ root, IsName name) (hmore : more ≠ [])
    (hnames : ∀ name ∈ more, IsName name) (hpath : 0x2f :: path = more.flatMap (0x2f :: ·)) :
    (FilePath.render root).join path = .render (root ++ more) := by
  have hrelative : path.isAbsolute = false := by
    cases more with
    | nil => exact absurd rfl hmore
    | cons name rest =>
      rw [List.flatMap_cons, List.cons_append, List.cons.injEq] at hpath
      exact isAbsolute_eq_false (hnames name List.mem_cons_self) hpath.2
  have hne : root ++ more ≠ [] := by simp [hmore]
  rw [FilePath.join, hrelative, if_neg (by simp), FilePath.render, FilePath.render, if_neg hne,
    List.flatMap_append, ← hpath]
  by_cases hempty : root = []
  · subst hempty
    simp
  · rw [if_neg hempty]
    rcases List.eq_nil_or_concat root with rfl | ⟨front, name, rfl⟩
    · exact absurd rfl hempty
    · -- a name does not end in a slash, so `join` puts one behind the root
      rw [List.concat_eq_append] at hroot ⊢
      have hname := hroot name (by simp)
      have hlast : ((front ++ [name]).flatMap ((0x2f : UInt8) :: ·)).getLast? = name.getLast? := by
        rw [List.flatMap_append, List.flatMap_singleton, List.getLast?_append,
          List.getLast?_cons]
        cases hl : name.getLast? with
        | none => exact absurd (List.getLast?_eq_none_iff.mp hl) hname.nonempty
        | some b => rfl
      have hslash : name.getLast? ≠ some 0x2f := fun heq =>
        hname.noSlash (List.mem_of_getLast? heq)
      rw [if_neg]
      rw [hlast, not_or]
      exact ⟨by simp, hslash⟩

/-- A slash is the encoding of a slash only. -/
theorem slash_not_mem {text : String} (h : '/' ∉ text.toList) : (0x2f : UInt8) ∉ utf8 text := by
  rw [← String.ofList_toList (s := text), utf8_ofList, List.mem_flatMap]
  intro hmem
  rcases hmem with ⟨c, hc, hbyte⟩
  by_cases hlow : c.toNat < 128
  · rw [utf8EncodeChar_of_ascii hlow, List.mem_singleton] at hbyte
    have hnat : c.toUInt8.toNat = c.toNat := toUInt8_toNat (by omega)
    rw [← hbyte] at hnat
    have hslash : c = '/' := Char.toNat_inj.mp hnat.symm
    exact h (hslash ▸ hc)
  · -- the bytes of the other characters are not ASCII
    have hhigh := high_of_mem_utf8EncodeChar (by omega) hbyte
    exact absurd hhigh (by decide)

/-- A relative name with a slash in front is its names with slashes in front. -/
theorem slash_utf8 (p : String) :
    0x2f :: utf8 p = (Tree.namesOf p).flatMap ((0x2f : UInt8) :: ·) := by
  have hpieces : ∀ pieces : List String, pieces ≠ [] →
      0x2f :: utf8 (String.intercalate "/" pieces) =
        (pieces.map utf8).flatMap ((0x2f : UInt8) :: ·) := by
    intro pieces hne
    induction pieces with
    | nil => exact absurd rfl hne
    | cons piece rest ih =>
      cases rest with
      | nil => simp
      | cons next rest =>
        have hslash : utf8 "/" = [0x2f] := by decide
        rw [String.intercalate_cons_cons, utf8_append, utf8_append, hslash, List.map_cons,
          List.flatMap_cons, ← ih (by simp)]
        simp
  rw [Tree.namesOf, ← hpieces _ split_ne_nil, join_split rfl]

theorem namesOf_ne_nil : Tree.namesOf p ≠ [] := by
  rw [Tree.namesOf, Ne, List.map_eq_nil_iff]
  exact split_ne_nil

/-- The names of a safe name are names. -/
theorem isName_of_safe (h : Safe p) : ∀ name ∈ Tree.namesOf p, IsName name := by
  intro name hmem
  rcases List.mem_map.mp hmem with ⟨segment, hsegment, rfl⟩
  rcases h segment hsegment with ⟨hne, hdot, hup, _⟩
  have hsame : ∀ text : String, segment ≠ text → utf8 segment ≠ utf8 text := fun text hdiffers heq =>
    hdiffers (utf8_injective heq)
  exact ⟨hsame "" hne, slash_not_mem (not_mem_of_mem_split hsegment), hsame "." hdot, hsame ".." hup⟩

theorem components_of_safe (h : Safe p) :
    FilePath.components (utf8 p) = (Tree.namesOf p).map .normal := by
  have hnames := isName_of_safe h
  have hsplit : (utf8 p).splitOn 0x2f = Tree.namesOf p := by
    have hslashes := splitOn_slashes (w := []) (by simp) fun name hmem => (hnames name hmem).noSlash
    rw [← slash_utf8, List.splitOn_append_cons_self, List.splitOn_nil] at hslashes
    exact (List.cons.inj hslashes).2
  rcases List.exists_cons_of_ne_nil (namesOf_ne_nil (p := p)) with ⟨name, rest, hcons⟩
  have hname := hnames name (by rw [hcons]; exact List.mem_cons_self)
  have hrelative : FilePath.isAbsolute (utf8 p) = false := by
    have hslashes := slash_utf8 p
    rw [hcons, List.flatMap_cons, List.cons_append, List.cons.injEq] at hslashes
    exact isAbsolute_eq_false hname hslashes.2
  have hhead : (Tree.namesOf p).head? ≠ some [0x2e] := by
    rw [hcons, List.head?_cons, Ne, Option.some.injEq]
    exact hname.notDot
  rw [FilePath.components, hsplit, hrelative, filterMap_names hnames, if_neg (by simp),
    if_neg (by simpa using hhead), List.nil_append]

end Paths

/-! ## Loading -/

section Loading

variable {tree : Tree} {cwd root names : List Bytes} {fs : Fs} {a : FsAssets} {p : String}
  {asset : Asset} {file : FilePath}

namespace Over

/-- What `canonicalize` returns has no links. -/
theorem canonical {path : FilePath} (h : Over tree cwd fs) (hpath : fs.canonicalize path = some file) :
    ∃ names, Walks tree.kind cwd path.moves names ∧ Plain tree.kind names ∧ file = .render names := by
  rcases h.canonicalize path file hpath with ⟨names, hwalk, hfile⟩
  exact ⟨names, hwalk, hwalk.plain h.start, hfile⟩

/-- A path without links is its own canonical one. -/
theorem canonicalize_render (h : Over tree cwd fs) (hplain : Plain tree.kind names) :
    fs.canonicalize (.render names) = some (.render names) := by
  rcases Option.isSome_iff_exists.mp (h.plain names hplain) with ⟨file, hfile⟩
  rcases h.canonicalize _ file hfile with ⟨stop, hwalk, rfl⟩
  rw [moves_render (isName_of_plain hplain)] at hwalk
  have hnames : Walks tree.kind cwd (.root :: names.map .down) names := .root hplain.walks
  rw [hfile, hwalk.unique hnames]

/-- The links of the way below a directory are found. -/
theorem traversesSymlink_iff (h : Over tree cwd fs) (hroot : Plain tree.kind root)
    (hnames : ∀ name ∈ names, IsName name) :
    FsAssets.traversesSymlink fs (.render root) (names.map .normal) = false ↔
      Plain tree.kind (root ++ names) := by
  induction names generalizing root with
  | nil => simpa [FsAssets.traversesSymlink] using hroot
  | cons name names ih =>
    have hname := hnames name List.mem_cons_self
    have hjoin : (FilePath.render root).join name = .render (root ++ [name]) := by
      refine join_render (isName_of_plain hroot) (by simp) ?_ (by simp)
      intro other hmem
      rw [List.mem_singleton.mp hmem]
      exact hname
    rw [List.map_cons, FsAssets.traversesSymlink, hjoin, h.symlinkMetadata root name hroot hname]
    have hfront : Plain tree.kind (root ++ name :: names) → Plain tree.kind (root ++ [name]) :=
      fun hplain => hplain.of_prefix ⟨names, by simp⟩
    -- the first name is not there, or a link, or plain and the others decide
    cases hnode : tree.node (root ++ [name]) with
    | none =>
      simp only [Option.map_none, Bool.true_eq_false, false_iff]
      intro hplain
      rcases kind_eq_plain_iff.mp (plain_concat.mp (hfront hplain)).2 with ⟨n, hn, _⟩
      rw [hnode] at hn
      cases hn
    | some n =>
      simp only [Option.map_some]
      by_cases hlink : n.metadata.fileType = .symlink
      · simp only [hlink, beq_self_eq_true, if_true, Bool.true_eq_false, false_iff]
        intro hplain
        rcases kind_eq_plain_iff.mp (plain_concat.mp (hfront hplain)).2 with ⟨n', hn', hkind⟩
        rw [hnode, Option.some.injEq] at hn'
        rw [hn'] at hlink
        exact hkind hlink
      · have hstep : Plain tree.kind (root ++ [name]) :=
          plain_concat.mpr ⟨hroot, kind_eq_plain_iff.mpr ⟨n, hnode, hlink⟩⟩
        have hrest := ih hstep fun other hmem => hnames other (List.mem_cons_of_mem _ hmem)
        rw [if_neg (by simpa using hlink), hrest, ← List.append_cons]

end Over

/-- The file system of a tree is one. -/
theorem over_fs {links : Nat} (h : Plain tree.kind cwd) : Over tree cwd (tree.fs links cwd) where
  start := h
  canonicalize := by
    intro path file hfile
    rcases Option.map_eq_some_iff.mp hfile with ⟨names, hnames, rfl⟩
    exact ⟨names, walks_of_resolve hnames, rfl⟩
  plain := by
    intro names hplain
    simp only [Tree.fs, moves_render (isName_of_plain hplain), hplain.resolve]
    rfl
  symlinkMetadata := by
    intro names name hplain hname
    have hnames : ∀ other ∈ names ++ [name], IsName other := by
      intro other hmem
      rcases List.mem_append.mp hmem with hmem | hmem
      · exact isName_of_plain hplain other hmem
      · rw [List.mem_singleton.mp hmem]
        exact hname
    simp only [Tree.fs, plainNames_render hnames]
  metadata := by
    intro names hplain
    simp only [Tree.fs, plainNames_render (isName_of_plain hplain)]
  read := by
    intro names hplain
    simp only [Tree.fs, plainNames_render (isName_of_plain hplain)]

/-- The file at a list of names without links. -/
theorem lookup_eq_some_iff : tree.lookup names = some asset ↔
    Plain tree.kind names ∧ ∃ n bytes, tree.node names = some n ∧ n.bytes = some bytes ∧
      asset = ⟨bytes, n.metadata.mtime⟩ := by
  unfold Tree.lookup
  split
  · rename_i hplain
    simp only [isPlain_iff.mp hplain, true_and, Option.bind_eq_some_iff, Node.asset,
      Option.map_eq_some_iff, exists_and_left, eq_comm (a := asset)]
  · rename_i hplain
    rw [isPlain_iff] at hplain
    simp [hplain]

theorem isFile_of_bytes {n : Node} {bytes : Bytes} (h : n.bytes = some bytes) :
    n.metadata.isFile = true := by
  rcases n with ⟨content, modified⟩
  cases content with
  | file => rfl
  | dir => cases h
  | link => cases h
  | other => cases h

theorem hasFile_iff : tree.hasFile names = true ↔
    Plain tree.kind names ∧ ∃ n, tree.node names = some n ∧ n.metadata.isFile = true := by
  rw [Tree.hasFile, Bool.and_eq_true, isPlain_iff, Option.any_eq_true]

/-- What a load returns, whatever links the name takes. -/
theorem Over.inside (h : Over tree cwd fs) (hload : a.load fs p = some asset) :
    ∃ root names, fs.canonicalize a.root = some (.render root) ∧ root <+: names ∧
      tree.lookup names = some asset ∧
      (Safe p → Walks tree.kind root ((Tree.namesOf p).map .down) names) := by
  rcases FsAssets.load_eq_some_iff.mp hload with ⟨rootPath, file, m, bytes, hresolves, hread, rfl⟩
  rcases h.canonical hresolves.canonicalRoot with ⟨root, _, hroot, rfl⟩
  rcases h.canonical hresolves.candidate with ⟨names, hwalk, hnames, rfl⟩
  have hinside := (startsWith_render (isName_of_plain hnames) (isName_of_plain hroot)).mp
    hresolves.inside
  have hmeta := hresolves.metadata
  rw [h.metadata names hnames, Option.map_eq_some_iff] at hmeta
  rcases hmeta with ⟨n, hn, rfl⟩
  rw [h.read names hnames, hn, Option.bind_some] at hread
  refine ⟨root, names, hresolves.canonicalRoot, hinside,
    lookup_eq_some_iff.mpr ⟨hnames, n, bytes, hn, hread, rfl⟩, ?_⟩
  intro hsafe
  -- the walk of the joined path passes the root
  have hmore := isName_of_safe hsafe
  rw [join_render (isName_of_plain hroot) namesOf_ne_nil hmore (slash_utf8 p),
    moves_render (List.forall_mem_append.mpr ⟨isName_of_plain hroot, hmore⟩), List.map_append,
    ← List.cons_append, walks_append] at hwalk
  rcases hwalk with ⟨mid, hfirst, hlast⟩
  have hdown : Walks tree.kind cwd (.root :: root.map .down) root := .root hroot.walks
  rw [hfirst.unique hdown] at hlast
  exact hlast

/-- Where links are not followed, a safe name resolves to the place it names. -/
theorem Over.resolves_iff {m : Metadata} (h : Over tree cwd fs) (hroot : Plain tree.kind root)
    (hcanonical : fs.canonicalize a.root = some (.render root)) (hlinks : a.followSymlinks = false)
    (hsafe : Safe p) :
    (∃ rootPath, a.Resolves fs p rootPath file m) ↔
      Plain tree.kind (root ++ Tree.namesOf p) ∧ file = .render (root ++ Tree.namesOf p) ∧
        (tree.node (root ++ Tree.namesOf p)).map Node.metadata = some m ∧ m.isFile = true := by
  have hmore := isName_of_safe hsafe
  have htraverse := h.traversesSymlink_iff hroot hmore
  have hjoin := join_render (isName_of_plain hroot) namesOf_ne_nil hmore (slash_utf8 p)
  rw [← components_of_safe hsafe] at htraverse
  -- without links on the way the joined path is its own canonical one
  constructor
  · intro hex
    rcases hex with ⟨rootPath, hresolves⟩
    have hsame := hresolves.canonicalRoot
    rw [hcanonical, Option.some.injEq] at hsame
    subst hsame
    have hplain := htraverse.mp (hresolves.links.resolve_left (by rw [hlinks]; simp))
    have hcandidate := hresolves.candidate
    rw [hjoin, h.canonicalize_render hplain, Option.some.injEq] at hcandidate
    subst hcandidate
    have hmeta := hresolves.metadata
    rw [h.metadata _ hplain] at hmeta
    exact ⟨hplain, rfl, hmeta, hresolves.regular⟩
  · intro hall
    rcases hall with ⟨hplain, rfl, hmeta, hregular⟩
    refine ⟨.render root, hcanonical, ?_, ?_, .inr (htraverse.mpr hplain), ?_, hregular⟩
    · rw [hjoin, h.canonicalize_render hplain]
    · exact (startsWith_render (isName_of_plain hplain) (isName_of_plain hroot)).mpr
        (List.prefix_append _ _)
    · rw [h.metadata _ hplain, hmeta]

theorem Over.resolves_of_node {n : Node} (h : Over tree cwd fs) (hroot : Plain tree.kind root)
    (hcanonical : fs.canonicalize a.root = some (.render root)) (hlinks : a.followSymlinks = false)
    (hsafe : Safe p) (hplain : Plain tree.kind (root ++ Tree.namesOf p))
    (hn : tree.node (root ++ Tree.namesOf p) = some n) (hregular : n.metadata.isFile = true) :
    ∃ rootPath, a.Resolves fs p rootPath (.render (root ++ Tree.namesOf p)) n.metadata := by
  have hmeta : (tree.node (root ++ Tree.namesOf p)).map Node.metadata = some n.metadata := by
    rw [hn, Option.map_some]
  exact (h.resolves_iff hroot hcanonical hlinks hsafe).mpr ⟨hplain, rfl, hmeta, hregular⟩

theorem Over.load_eq_lookup (h : Over tree cwd fs) (hroot : Plain tree.kind root)
    (hcanonical : fs.canonicalize a.root = some (.render root)) (hlinks : a.followSymlinks = false)
    (hsafe : Safe p) : a.load fs p = tree.lookup (root ++ Tree.namesOf p) := by
  apply Option.ext
  intro asset
  rw [FsAssets.load_eq_some_iff, lookup_eq_some_iff]
  constructor
  · intro hload
    rcases hload with ⟨rootPath, file, m, bytes, hresolves, hread, rfl⟩
    rcases (h.resolves_iff hroot hcanonical hlinks hsafe).mp ⟨rootPath, hresolves⟩ with
      ⟨hplain, rfl, hmeta, _⟩
    rcases Option.map_eq_some_iff.mp hmeta with ⟨n, hn, rfl⟩
    rw [h.read _ hplain, hn, Option.bind_some] at hread
    exact ⟨hplain, n, bytes, hn, hread, rfl⟩
  · intro hfound
    rcases hfound with ⟨hplain, n, bytes, hn, hbytes, rfl⟩
    rcases h.resolves_of_node hroot hcanonical hlinks hsafe hplain hn (isFile_of_bytes hbytes) with
      ⟨rootPath, hresolves⟩
    refine ⟨rootPath, _, n.metadata, bytes, hresolves, ?_, rfl⟩
    rw [h.read _ hplain, hn, Option.bind_some, hbytes]

theorem Over.existsAt_eq_hasFile (h : Over tree cwd fs) (hroot : Plain tree.kind root)
    (hcanonical : fs.canonicalize a.root = some (.render root)) (hlinks : a.followSymlinks = false)
    (hsafe : Safe p) : a.existsAt fs p = tree.hasFile (root ++ Tree.namesOf p) := by
  rw [Bool.eq_iff_iff, FsAssets.existsAt_iff, hasFile_iff]
  constructor
  · intro hexists
    rcases hexists with ⟨rootPath, file, m, hresolves⟩
    rcases (h.resolves_iff hroot hcanonical hlinks hsafe).mp ⟨rootPath, hresolves⟩ with
      ⟨hplain, _, hmeta, hregular⟩
    rcases Option.map_eq_some_iff.mp hmeta with ⟨n, hn, rfl⟩
    exact ⟨hplain, n, hn, hregular⟩
  · intro hfile
    rcases hfile with ⟨hplain, n, hn, hregular⟩
    rcases h.resolves_of_node hroot hcanonical hlinks hsafe hplain hn hregular with
      ⟨rootPath, hresolves⟩
    exact ⟨rootPath, _, n.metadata, hresolves⟩

end Loading

/-! ## Serving -/

section Serving

variable {tree : Tree} {cwd : List Bytes} {fs : Fs} {a : FsAssets} {path : String}
  {indexFiles candidates : List String} {mimeOverrides : List (String × String)}
  {response : Response}

theorem load_of_firstAsset {assets : AssetSource} {name : String} {asset : Asset}
    (h : firstAsset assets candidates = some (name, asset)) :
    name ∈ candidates ∧ assets.load name = some asset := by
  induction candidates with
  | nil => cases h
  | cons candidate rest ih =>
    unfold firstAsset at h
    split at h
    · rename_i hload
      cases h
      exact ⟨List.mem_cons_self, hload⟩
    · rcases ih h with ⟨hmem, hload⟩
      exact ⟨List.mem_cons_of_mem _ hmem, hload⟩

/-- Sources that agree on the candidates serve alike. -/
theorem firstAsset_congr {assets assets' : AssetSource}
    (h : ∀ p ∈ candidates, assets.load p = assets'.load p) :
    firstAsset assets candidates = firstAsset assets' candidates := by
  induction candidates with
  | nil => rfl
  | cons candidate rest ih =>
    rw [firstAsset, firstAsset, h candidate List.mem_cons_self,
      ih fun p hmem => h p (List.mem_cons_of_mem _ hmem)]

/-- What is served is a file of the tree below the root, whatever is requested and whether
links are followed or not; and the links that lead there lead from one of the names that the
requested path stands for. -/
theorem FsAssets.served_inside (h : Over tree cwd fs)
    (hserved : serveStatic path indexFiles (a.source fs) mimeOverrides = some response) :
    ∃ root names candidates p asset, fs.canonicalize a.root = some (.render root) ∧
      root <+: names ∧ candidatePaths path indexFiles = some candidates ∧ p ∈ candidates ∧
      tree.lookup names = some asset ∧ response = fileResponse p asset mimeOverrides ∧
      ((∀ index ∈ indexFiles, Safe index) →
        Walks tree.kind root ((Tree.namesOf p).map .down) names) := by
  simp only [serveStatic, Option.bind_eq_bind, Option.bind_eq_some_iff, Prod.exists,
    Option.some.injEq] at hserved
  rcases hserved with ⟨candidates, hcandidates, p, asset, hfirst, rfl⟩
  rcases load_of_firstAsset hfirst with ⟨hmem, hload⟩
  rcases h.inside hload with ⟨root, names, hroot, hinside, hlookup, hwalk⟩
  refine ⟨root, names, candidates, p, asset, hroot, hinside, hcandidates, hmem, hlookup, rfl, ?_⟩
  intro hindex
  exact hwalk (safe_of_candidatePaths hindex hcandidates p hmem)

/-! A tree with a link that stays below the root, and one that does not -/

def linked : Tree := .ofList
  [([utf8 "www"], ⟨.dir, none⟩),
    ([utf8 "www", utf8 "a"], ⟨.file (some (utf8 "hi")), none⟩),
    ([utf8 "www", utf8 "b"], ⟨.link (utf8 "../www/./a"), none⟩),
    ([utf8 "www", utf8 "key"], ⟨.link (utf8 "/etc/key"), none⟩),
    ([utf8 "etc"], ⟨.dir, none⟩),
    ([utf8 "etc", utf8 "key"], ⟨.file (some (utf8 "no")), none⟩)] (by decide)

/-- The link is served as what it leads to. -/
theorem served_link : serveStatic "/b" ["index.html"]
    (FsAssets.source (linked.fs 40 []) ⟨utf8 "/www", true⟩) [] =
      some (fileResponse "b" ⟨utf8 "hi", none⟩ []) := by
  decide

theorem FsAssets.served_inside_link : ∃ root names candidates p asset,
    (linked.fs 40 []).canonicalize (utf8 "/www") = some (.render root) ∧ root <+: names ∧
      candidatePaths "/b" ["index.html"] = some candidates ∧ p ∈ candidates ∧
      linked.lookup names = some asset ∧
      fileResponse "b" ⟨utf8 "hi", none⟩ [] = fileResponse p asset [] ∧
      ((∀ index ∈ ["index.html"], Safe index) →
        Walks linked.kind root ((Tree.namesOf p).map .down) names) :=
  FsAssets.served_inside (over_fs plain_nil) served_link

/-- Where links are not followed, serving and probing are lookups in the tree. -/
theorem FsAssets.nofollow_serves_lookup {rootPath : FilePath} (h : Over tree cwd fs)
    (hlinks : a.followSymlinks = false) (hroot : fs.canonicalize a.root = some rootPath) :
    ∃ root, rootPath = .render root ∧ Plain tree.kind root ∧
      ∀ path indexFiles, (∀ index ∈ indexFiles, Safe index) →
        (∀ mimeOverrides, serveStatic path indexFiles (a.source fs) mimeOverrides =
          serveStatic path indexFiles (tree.source root) mimeOverrides) ∧
        staticExists path indexFiles (a.source fs) =
          staticExists path indexFiles (tree.source root) := by
  rcases h.canonical hroot with ⟨root, _, hplain, rfl⟩
  refine ⟨root, rfl, hplain, ?_⟩
  intro path indexFiles hindex
  cases hcandidates : candidatePaths path indexFiles with
  | none => simp [serveStatic, staticExists, hcandidates]
  | some candidates =>
    -- both sources are only asked for safe names
    have hsafe := safe_of_candidatePaths hindex hcandidates
    have hload : ∀ p ∈ candidates, (a.source fs).load p = (tree.source root).load p :=
      fun p hmem => h.load_eq_lookup hplain hroot hlinks (hsafe p hmem)
    have hexists : ∀ p ∈ candidates, (a.source fs).existsAt p = (tree.source root).existsAt p :=
      fun p hmem => h.existsAt_eq_hasFile hplain hroot hlinks (hsafe p hmem)
    constructor
    · intro mimeOverrides
      simp only [serveStatic, hcandidates, Option.bind_eq_bind, Option.bind_some,
        firstAsset_congr hload]
    · simp only [staticExists, hcandidates]
      rw [Bool.eq_iff_iff, List.any_eq_true, List.any_eq_true]
      exact exists_congr fun p => and_congr_right fun hmem => by rw [hexists p hmem]

/-- The link is not served there. -/
theorem FsAssets.nofollow_serves_lookup_link : ∃ root, utf8 "/www" = FilePath.render root ∧
    Plain linked.kind root ∧ ∀ path indexFiles, (∀ index ∈ indexFiles, Safe index) →
      (∀ mimeOverrides, serveStatic path indexFiles
          (FsAssets.source (linked.fs 40 []) ⟨utf8 "/www", false⟩) mimeOverrides =
        serveStatic path indexFiles (linked.source root) mimeOverrides) ∧
      staticExists path indexFiles (FsAssets.source (linked.fs 40 []) ⟨utf8 "/www", false⟩) =
        staticExists path indexFiles (linked.source root) :=
  FsAssets.nofollow_serves_lookup (over_fs plain_nil) rfl (by decide)

end Serving

end FerroHttp
