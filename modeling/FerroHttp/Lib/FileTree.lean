import Mathlib.Data.List.Basic
import Mathlib.Data.List.Infix

/-!
# FileTree — paths through a tree with symbolic links

A tree says of each list of names whether something is there, and whether that is a link.
`Walks` resolves a path: it goes down one name after the other and continues with the target
of a link instead of the link. What a walk ends at has no link on it (`Walks.plain`), and
without links on the way a walk ends where its names say (`Plain.walks`).
-/

namespace FileTree

variable {α : Type}

/-- A component of a path. -/
inductive Move (α : Type) where
  | root
  | stay
  | up
  | down (name : α)
deriving DecidableEq, Repr

/-- What is at a list of names, as far as paths are concerned. -/
inductive Kind (α : Type) where
  | plain
  | link (target : List (Move α))
deriving DecidableEq, Repr

/-- The walk from a directory along the components of a path, and where it ends. -/
inductive Walks (tree : List α → Option (Kind α)) : List α → List (Move α) → List α → Prop
  | here (cur : List α) : Walks tree cur [] cur
  | root {cur stop : List α} {rest : List (Move α)} (h : Walks tree [] rest stop) :
      Walks tree cur (.root :: rest) stop
  | stay {cur stop : List α} {rest : List (Move α)} (h : Walks tree cur rest stop) :
      Walks tree cur (.stay :: rest) stop
  | up {cur stop : List α} {rest : List (Move α)} (h : Walks tree cur.dropLast rest stop) :
      Walks tree cur (.up :: rest) stop
  | down {cur stop : List α} {name : α} {rest : List (Move α)}
      (there : tree (cur ++ [name]) = some .plain) (h : Walks tree (cur ++ [name]) rest stop) :
      Walks tree cur (.down name :: rest) stop
  | follow {cur stop : List α} {name : α} {target rest : List (Move α)}
      (there : tree (cur ++ [name]) = some (.link target)) (h : Walks tree cur (target ++ rest) stop) :
      Walks tree cur (.down name :: rest) stop

/-- Everything on the way is there, and nothing of it is a link. -/
def Plain (tree : List α → Option (Kind α)) (names : List α) : Prop :=
  ∀ front, front <+: names → front ≠ [] → tree front = some .plain

/-- The end of a path up to the first link; `follow` takes over from there. -/
def resolveTo (tree : List α → Option (Kind α))
    (follow : List α → List (Move α) → Option (List α)) : List α → List (Move α) → Option (List α)
  | cur, [] => some cur
  | _, .root :: rest => resolveTo tree follow [] rest
  | cur, .stay :: rest => resolveTo tree follow cur rest
  | cur, .up :: rest => resolveTo tree follow cur.dropLast rest
  | cur, .down name :: rest =>
    match tree (cur ++ [name]) with
    | some .plain => resolveTo tree follow (cur ++ [name]) rest
    | some (.link target) => follow cur (target ++ rest)
    | none => none

/-- The end of a path, past at most that many links. -/
def resolve (tree : List α → Option (Kind α)) : Nat → List α → List (Move α) → Option (List α)
  | 0 => resolveTo tree fun _ _ => none
  | links + 1 => resolveTo tree (resolve tree links)

section Walks

variable {tree : List α → Option (Kind α)} {cur stop stop' names : List α}
  {moves moves' : List (Move α)} {name : α}

/-- A path resolves to one place. -/
theorem Walks.unique (h : Walks tree cur moves stop) (h' : Walks tree cur moves stop') :
    stop = stop' := by
  -- what the tree has at a name decides between a step down and a link
  induction h with
  | here cur =>
    cases h'
    rfl
  | root _ ih =>
    cases h' with
    | root h' => exact ih h'
  | stay _ ih =>
    cases h' with
    | stay h' => exact ih h'
  | up _ ih =>
    cases h' with
    | up h' => exact ih h'
  | down there _ ih =>
    cases h' with
    | down _ h' => exact ih h'
    | follow there' _ => cases there.symm.trans there'
  | follow there _ ih =>
    cases h' with
    | down there' _ => cases there.symm.trans there'
    | follow there' h' =>
      cases there.symm.trans there'
      exact ih h'

theorem plain_nil : Plain tree [] := by
  intro front hfront hne
  exact absurd (List.prefix_nil.mp hfront) hne

theorem Plain.of_prefix {front : List α} (h : Plain tree names) (hfront : front <+: names) :
    Plain tree front := by
  intro shorter hshorter hne
  exact h shorter (hshorter.trans hfront) hne

theorem plain_concat : Plain tree (names ++ [name]) ↔
    Plain tree names ∧ tree (names ++ [name]) = some .plain := by
  constructor
  · intro h
    exact ⟨h.of_prefix (List.prefix_append _ _), h _ List.prefix_rfl (by simp)⟩
  · intro h front hfront hne
    rcases List.prefix_concat_iff.mp hfront with rfl | hshorter
    · exact h.2
    · exact h.1 front hshorter hne

/-- Whatever links a path takes, it ends at a place without links on the way. -/
theorem Walks.plain (h : Walks tree cur moves stop) (hcur : Plain tree cur) : Plain tree stop := by
  -- only a step down adds a name; a link leaves the walk where it is
  induction h with
  | here cur => exact hcur
  | root _ ih => exact ih plain_nil
  | stay _ ih => exact ih hcur
  | up _ ih => exact ih (hcur.of_prefix (List.dropLast_prefix _))
  | down there _ ih => exact ih (plain_concat.mpr ⟨hcur, there⟩)
  | follow _ _ ih => exact ih hcur

/-- Names without links lead where they say. -/
theorem Plain.walks (h : Plain tree (cur ++ names)) :
    Walks tree cur (names.map .down) (cur ++ names) := by
  induction names generalizing cur with
  | nil =>
    rw [List.append_nil]
    exact .here cur
  | cons name names ih =>
    rw [List.append_cons] at h ⊢
    have hthere : tree (cur ++ [name]) = some .plain :=
      h _ (List.prefix_append _ _) (by simp)
    exact .down hthere (ih h)

/-- A walk along two paths is one along the first, and one from where it ends. -/
theorem walks_append : Walks tree cur (moves ++ moves') stop ↔
    ∃ mid, Walks tree cur moves mid ∧ Walks tree mid moves' stop := by
  constructor
  · intro h
    -- by the walk; a link puts its target in front of what is left of the first path
    generalize hall : moves ++ moves' = all at h
    induction h generalizing moves with
    | here cur =>
      rcases List.append_eq_nil_iff.mp hall with ⟨rfl, rfl⟩
      exact ⟨cur, .here cur, .here cur⟩
    | @root cur _ rest h ih =>
      cases moves with
      | nil =>
        cases hall
        exact ⟨cur, .here cur, .root h⟩
      | cons move moves =>
        cases hall
        rcases ih rfl with ⟨mid, hfirst, hlast⟩
        exact ⟨mid, .root hfirst, hlast⟩
    | @stay cur _ rest h ih =>
      cases moves with
      | nil =>
        cases hall
        exact ⟨cur, .here cur, .stay h⟩
      | cons move moves =>
        cases hall
        rcases ih rfl with ⟨mid, hfirst, hlast⟩
        exact ⟨mid, .stay hfirst, hlast⟩
    | @up cur _ rest h ih =>
      cases moves with
      | nil =>
        cases hall
        exact ⟨cur, .here cur, .up h⟩
      | cons move moves =>
        cases hall
        rcases ih rfl with ⟨mid, hfirst, hlast⟩
        exact ⟨mid, .up hfirst, hlast⟩
    | @down cur _ name rest there h ih =>
      cases moves with
      | nil =>
        cases hall
        exact ⟨cur, .here cur, .down there h⟩
      | cons move moves =>
        cases hall
        rcases ih rfl with ⟨mid, hfirst, hlast⟩
        exact ⟨mid, .down there hfirst, hlast⟩
    | @follow cur _ name target rest there h ih =>
      cases moves with
      | nil =>
        cases hall
        exact ⟨cur, .here cur, .follow there h⟩
      | cons move moves =>
        cases hall
        rcases ih (List.append_assoc _ _ _) with ⟨mid, hfirst, hlast⟩
        exact ⟨mid, .follow there hfirst, hlast⟩
  · intro h
    rcases h with ⟨mid, hfirst, hlast⟩
    -- the second path stays behind whatever a link puts in front
    induction hfirst with
    | here cur => exact hlast
    | root _ ih => exact .root (ih hlast)
    | stay _ ih => exact .stay (ih hlast)
    | up _ ih => exact .up (ih hlast)
    | down there _ ih => exact .down there (ih hlast)
    | follow there _ ih =>
      refine .follow there ?_
      have hwalk := ih hlast
      rw [List.append_assoc] at hwalk
      exact hwalk

theorem walks_of_resolveTo {follow : List α → List (Move α) → Option (List α)}
    (hfollow : ∀ cur moves stop, follow cur moves = some stop → Walks tree cur moves stop)
    (h : resolveTo tree follow cur moves = some stop) : Walks tree cur moves stop := by
  induction moves generalizing cur with
  | nil =>
    rw [resolveTo, Option.some.injEq] at h
    rw [← h]
    exact .here cur
  | cons move rest ih =>
    cases move with
    | root => exact .root (ih h)
    | stay => exact .stay (ih h)
    | up => exact .up (ih h)
    | down name =>
      rw [resolveTo] at h
      cases hthere : tree (cur ++ [name]) with
      | none =>
        rw [hthere] at h
        cases h
      | some kind =>
        rw [hthere] at h
        cases kind with
        | plain => exact .down hthere (ih h)
        | link target => exact .follow hthere (hfollow _ _ _ h)

/-- What is resolved is the end of the walk. -/
theorem walks_of_resolve {links : Nat} (h : resolve tree links cur moves = some stop) :
    Walks tree cur moves stop := by
  -- one more link is what one more level of `follow` allows
  induction links generalizing cur moves stop with
  | zero =>
    refine walks_of_resolveTo ?_ h
    intro _ _ _ hnone
    cases hnone
  | succ links ih => exact walks_of_resolveTo (fun _ _ _ => ih) h

theorem Plain.resolveTo {follow : List α → List (Move α) → Option (List α)}
    (h : Plain tree (cur ++ names)) :
    resolveTo tree follow cur (names.map .down) = some (cur ++ names) := by
  induction names generalizing cur with
  | nil => rw [List.map_nil, FileTree.resolveTo, List.append_nil]
  | cons name names ih =>
    rw [List.append_cons] at h ⊢
    have hthere : tree (cur ++ [name]) = some .plain :=
      h _ (List.prefix_append _ _) (by simp)
    rw [List.map_cons, FileTree.resolveTo, hthere]
    exact ih h

/-- Names without links are resolved without following any. -/
theorem Plain.resolve {links : Nat} (h : Plain tree names) :
    resolve tree links cur (.root :: names.map .down) = some names := by
  have hdown : ∀ follow, FileTree.resolveTo tree follow [] (names.map .down) = some names := by
    intro follow
    have hroot : Plain tree ([] ++ names) := h
    exact hroot.resolveTo
  cases links with
  | zero => exact hdown _
  | succ links => exact hdown _

end Walks

end FileTree
