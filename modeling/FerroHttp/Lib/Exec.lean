import Mathlib.Logic.Relation

/-!
# Exec — outcomes, loops and machine words

The execution vocabulary of a small imperative language with panics:

1. **Outcomes**: `Outcome ε α` is a result, an error of the program's own, a
   panic, or "the fuel ran out" (kept apart from the panic, so that totality
   is a statement and not a convention);
2. **Loops**: `loop` iterates a body that either goes on with a new state or
   is done. `loop_eq_some` ties its result to the states the body reaches, and
   `loop_terminates` discharges the fuel by a measure;
3. **Words**: `Target.add` is machine addition, which wraps in a release build
   and panics in a checked one, and `slice` is the bounds-checked subslice.
-/

namespace Exec

/-! ## Outcomes -/

/-- What running a fallible piece of code can end in. -/
inductive Outcome (ε α : Type) where
  | ok (a : α)
  | err (e : ε)
  | panic
  | diverge
deriving DecidableEq, Repr

namespace Outcome

variable {ε α β : Type}

/-- Sequencing: everything but a result ends the run. -/
def bind (x : Outcome ε α) (f : α → Outcome ε β) : Outcome ε β :=
  match x with
  | .ok a => f a
  | .err e => .err e
  | .panic => .panic
  | .diverge => .diverge

instance : Monad (Outcome ε) where
  pure := .ok
  bind := bind

@[simp] theorem pure_eq (a : α) : (pure a : Outcome ε α) = .ok a := rfl

@[simp] theorem ok_bind (a : α) (f : α → Outcome ε β) : (Outcome.ok a >>= f) = f a := rfl

@[simp] theorem err_bind (e : ε) (f : α → Outcome ε β) :
    ((Outcome.err e : Outcome ε α) >>= f) = .err e := rfl

@[simp] theorem panic_bind (f : α → Outcome ε β) :
    ((Outcome.panic : Outcome ε α) >>= f) = .panic := rfl

@[simp] theorem diverge_bind (f : α → Outcome ε β) :
    ((Outcome.diverge : Outcome ε α) >>= f) = .diverge := rfl

instance : LawfulMonad (Outcome ε) :=
  LawfulMonad.mk' (Outcome ε) (fun x => by cases x <;> rfl) (fun _ _ => rfl)
    (fun x _ _ => by cases x <;> rfl)

/-- A sequence returns exactly when both halves do. -/
theorem bind_eq_ok {x : Outcome ε α} {f : α → Outcome ε β} {b : β} :
    (x >>= f) = .ok b ↔ ∃ a, x = .ok a ∧ f a = .ok b := by
  cases x <;> simp

/-- A sequence panics in its first half, or in the second after a result. -/
theorem bind_eq_panic {x : Outcome ε α} {f : α → Outcome ε β} :
    (x >>= f) = .panic ↔ x = .panic ∨ ∃ a, x = .ok a ∧ f a = .panic := by
  cases x <;> simp

/-- A sequence runs on for ever in its first half, or in the second after a result. -/
theorem bind_eq_diverge {x : Outcome ε α} {f : α → Outcome ε β} :
    (x >>= f) = .diverge ↔ x = .diverge ∨ ∃ a, x = .ok a ∧ f a = .diverge := by
  cases x <;> simp

/-- The same for an error-or-value. -/
theorem except_bind_eq_ok {x : Except ε α} {f : α → Except ε β} {b : β} :
    (x >>= f) = .ok b ↔ ∃ a, x = .ok a ∧ f a = .ok b := by
  cases x <;> simp [Bind.bind, Except.bind]

theorem except_ok_bind (a : α) (f : α → Except ε β) : (Except.ok a >>= f) = f a := rfl

theorem except_bind_ok {x : Except ε α} {f : α → Except ε β} {a : α} {b : β} (hx : x = .ok a)
    (hf : f a = .ok b) : (x >>= f) = .ok b :=
  except_bind_eq_ok.mpr ⟨a, hx, hf⟩

/-- An error-or-value as an outcome. -/
def ofExcept : Except ε α → Outcome ε α
  | .ok a => .ok a
  | .error e => .err e

@[simp] theorem ofExcept_ok (a : α) : ofExcept (.ok a : Except ε α) = .ok a := rfl

@[simp] theorem ofExcept_error (e : ε) : ofExcept (.error e : Except ε α) = .err e := rfl

/-- The run ended by returning: a value or an error of the program's own. -/
def Returns : Outcome ε α → Prop
  | .ok _ => True
  | .err _ => True
  | .panic => False
  | .diverge => False

instance (x : Outcome ε α) : Decidable x.Returns :=
  match x with
  | .ok _ => .isTrue trivial
  | .err _ => .isTrue trivial
  | .panic => .isFalse id
  | .diverge => .isFalse id

/-- The run ended by returning, and a value it returned satisfies `P`. -/
def Sat (P : α → Prop) : Outcome ε α → Prop
  | .ok a => P a
  | .err _ => True
  | .panic => False
  | .diverge => False

/-- Sequencing keeps the promise: the second half may rely on what the first one
ensures. -/
theorem Sat.bind {P : α → Prop} {Q : β → Prop} {x : Outcome ε α} {f : α → Outcome ε β}
    (hx : x.Sat P) (hf : ∀ a, P a → (f a).Sat Q) : (x >>= f).Sat Q := by
  cases x with
  | ok a => exact hf a hx
  | err e => exact trivial
  | panic => exact hx
  | diverge => exact hx

theorem Sat.ite {P : α → Prop} {c : Prop} [Decidable c] {x y : Outcome ε α} (hx : x.Sat P)
    (hy : y.Sat P) : (if c then x else y).Sat P := by
  split
  · exact hx
  · exact hy

theorem Sat.mono {P Q : α → Prop} {x : Outcome ε α} (hx : x.Sat P) (h : ∀ a, P a → Q a) :
    x.Sat Q := by
  cases x with
  | ok a => exact h a hx
  | err e => exact trivial
  | panic => exact hx
  | diverge => exact hx

theorem Sat.returns {P : α → Prop} {x : Outcome ε α} (hx : x.Sat P) : x.Returns := by
  cases x with
  | ok a => exact trivial
  | err e => exact trivial
  | panic => exact hx
  | diverge => exact hx

/-- The value or the error of a run that returns. -/
def toExcept : (x : Outcome ε α) → x.Returns → Except ε α
  | .ok a, _ => .ok a
  | .err e, _ => .error e

theorem toExcept_eq_ok_iff {x : Outcome ε α} {h : x.Returns} {a : α} :
    x.toExcept h = .ok a ↔ x = .ok a := by
  cases x with
  | ok b => simp [toExcept]
  | err e => simp [toExcept]
  | panic => exact h.elim
  | diverge => exact h.elim

theorem toExcept_eq_error_iff {x : Outcome ε α} {h : x.Returns} {e : ε} :
    x.toExcept h = .error e ↔ x = .err e := by
  cases x with
  | ok b => simp [toExcept]
  | err e' => simp [toExcept]
  | panic => exact h.elim
  | diverge => exact h.elim

/-- The run ended with an error of the program's own. -/
def IsErr (x : Outcome ε α) : Prop := ∃ e, x = .err e

@[simp] theorem isErr_err (e : ε) : (Outcome.err e : Outcome ε α).IsErr := ⟨e, rfl⟩

@[simp] theorem not_isErr_ok (a : α) : ¬ (Outcome.ok a : Outcome ε α).IsErr := by
  rintro ⟨e, h⟩
  cases h

@[simp] theorem not_isErr_panic : ¬ (Outcome.panic : Outcome ε α).IsErr := by
  rintro ⟨e, h⟩
  cases h

@[simp] theorem not_isErr_diverge : ¬ (Outcome.diverge : Outcome ε α).IsErr := by
  rintro ⟨e, h⟩
  cases h

end Outcome

/-! ## Loops -/

/-- The verdict of one loop iteration. -/
inductive Flow (σ ρ : Type) where
  | again (s : σ)
  | done (r : ρ)
deriving DecidableEq, Repr

/-- A further iteration starts in a state of `A`, or the result is one of `P`. -/
def Flow.Sat {σ ρ : Type} (A : σ → Prop) (P : ρ → Prop) : Flow σ ρ → Prop
  | .again s => A s
  | .done r => P r

section Loop

variable {σ σ' ρ ε : Type}

/-- Iterate `body` from `s` for at most `fuel` iterations; `none` when the fuel
ran out before the body was done. -/
def loop (body : σ → Flow σ ρ) : Nat → σ → Option ρ
  | 0, _ => none
  | fuel + 1, s =>
    match body s with
    | .again s' => loop body fuel s'
    | .done r => some r

/-- One iteration takes `s` to `s'`. -/
def Next (body : σ → Flow σ ρ) (s s' : σ) : Prop := body s = .again s'

/-- `s'` is the state at the head of some iteration of a loop entered at `s`. -/
def Reaches (body : σ → Flow σ ρ) : σ → σ → Prop :=
  Relation.ReflTransGen (Next body)

theorem Reaches.refl {body : σ → Flow σ ρ} {s : σ} : Reaches body s s :=
  Relation.ReflTransGen.refl

theorem Reaches.tail {body : σ → Flow σ ρ} {s t u : σ} (h : Reaches body s t)
    (hstep : body t = .again u) : Reaches body s u :=
  Relation.ReflTransGen.tail h hstep

theorem Reaches.head {body : σ → Flow σ ρ} {s t u : σ} (hstep : body s = .again t)
    (h : Reaches body t u) : Reaches body s u :=
  Relation.ReflTransGen.head hstep h

/-- Loop invariants: what holds on entry and is kept by every iteration holds
at the head of every iteration. -/
theorem Reaches.invariant {body : σ → Flow σ ρ} {I : σ → Prop} {s t : σ}
    (h : Reaches body s t) (hinit : I s)
    (hstep : ∀ u u', body u = .again u' → I u → I u') : I t := by
  induction h with
  | refl => exact hinit
  | tail _ hnext ih => exact hstep _ _ hnext ih

/-- Two bodies that agree where the first goes on reach the same states. -/
theorem Reaches.transfer {body body' : σ → Flow σ ρ} {s t : σ} (h : Reaches body s t)
    (hsim : ∀ u u', Reaches body s u → body u = .again u' → body' u = .again u') :
    Reaches body' s t := by
  induction h with
  | refl => exact .refl
  | tail hreach hnext ih => exact ih.tail (hsim _ _ hreach hnext)

/-- A result is produced at a reached state whose iteration is the last. -/
theorem exists_reaches_of_loop {body : σ → Flow σ ρ} {fuel : Nat} {s : σ} {r : ρ}
    (h : loop body fuel s = some r) : ∃ t, Reaches body s t ∧ body t = .done r := by
  induction fuel generalizing s with
  | zero => simp [loop] at h
  | succ fuel ih =>
    unfold loop at h
    cases hb : body s with
    | again s' =>
      rw [hb] at h
      obtain ⟨t, ht, hdone⟩ := ih h
      exact ⟨t, .head hb ht, hdone⟩
    | done r' =>
      rw [hb] at h
      cases h
      exact ⟨s, .refl, hb⟩

/-- Once the loop has produced its result, further fuel does not change it. -/
theorem loop_mono {body : σ → Flow σ ρ} {fuel more : Nat} {s : σ} {r : ρ}
    (h : loop body fuel s = some r) (hle : fuel ≤ more) : loop body more s = some r := by
  induction fuel generalizing s more with
  | zero => simp [loop] at h
  | succ fuel ih =>
    obtain ⟨more, rfl⟩ : ∃ m, more = m + 1 := ⟨more - 1, by omega⟩
    unfold loop at h ⊢
    cases hb : body s with
    | again s' =>
      rw [hb] at h
      exact ih h (by omega)
    | done r' =>
      rw [hb] at h
      exact h

/-- A loop whose body is done at a reached state produces that result, given
enough fuel. -/
theorem loop_of_reaches {body : σ → Flow σ ρ} {s t : σ} {r : ρ}
    (h : Reaches body s t) (hdone : body t = .done r) : ∃ fuel, loop body fuel s = some r := by
  induction h using Relation.ReflTransGen.head_induction_on with
  | refl => exact ⟨1, by simp [loop, hdone]⟩
  | head hnext _ ih =>
    obtain ⟨fuel, hf⟩ := ih
    refine ⟨fuel + 1, ?_⟩
    unfold loop
    rw [show body _ = .again _ from hnext]
    exact hf

/-- The fuel is enough when a measure below it falls at every iteration that
goes on from a state satisfying the invariant. -/
theorem loop_terminates {body : σ → Flow σ ρ} (I : σ → Prop) (m : σ → Nat)
    (hstep : ∀ u u', body u = .again u' → I u → I u' ∧ m u' < m u) :
    ∀ (fuel : Nat) (s : σ), I s → m s < fuel → ∃ r, loop body fuel s = some r := by
  intro fuel
  induction fuel with
  | zero => intro s _ h; omega
  | succ fuel ih =>
    intro s hI hm
    unfold loop
    cases hb : body s with
    | again s' =>
      obtain ⟨hI', hlt⟩ := hstep s s' hb hI
      exact ih s' hI' (by omega)
    | done r => exact ⟨r, rfl⟩

/-- With enough fuel, the loop's result is the verdict of the last iteration of
whichever run reaches one. -/
theorem loop_eq_some {body : σ → Flow σ ρ} {fuel : Nat} {s t : σ} {r : ρ}
    (hfuel : ∃ r', loop body fuel s = some r') (h : Reaches body s t)
    (hdone : body t = .done r) : loop body fuel s = some r := by
  obtain ⟨r', hr'⟩ := hfuel
  obtain ⟨k, hk⟩ := loop_of_reaches h hdone
  have h1 : loop body (max fuel k) s = some r' := loop_mono hr' (Nat.le_max_left _ _)
  have h2 : loop body (max fuel k) s = some r := loop_mono hk (Nat.le_max_right _ _)
  rw [hr', ← h1, h2]

/-- An iteration that can itself fail, as a plain iteration: a failure is a
verdict. -/
def Flow.ofOutcome : Outcome ε (Flow σ ρ) → Flow σ (Outcome ε ρ)
  | .ok (.again s) => .again s
  | .ok (.done r) => .done (.ok r)
  | .err e => .done (.err e)
  | .panic => .done .panic
  | .diverge => .done .diverge

@[simp] theorem Flow.ofOutcome_eq_again {x : Outcome ε (Flow σ ρ)} {s : σ} :
    Flow.ofOutcome x = .again s ↔ x = .ok (.again s) := by
  match x with
  | .ok (.again t) => simp [Flow.ofOutcome]
  | .ok (.done r) => simp [Flow.ofOutcome]
  | .err e => simp [Flow.ofOutcome]
  | .panic => simp [Flow.ofOutcome]
  | .diverge => simp [Flow.ofOutcome]

/-- A loop over a body that can fail. -/
def runLoop (body : σ → Outcome ε (Flow σ ρ)) (fuel : Nat) (s : σ) : Outcome ε ρ :=
  (loop (fun s => Flow.ofOutcome (body s)) fuel s).getD .diverge

/-- An iteration that goes on uses up one unit of fuel. -/
theorem runLoop_again {body : σ → Outcome ε (Flow σ ρ)} {fuel : Nat} {s s' : σ}
    (h : body s = .ok (.again s')) : runLoop body (fuel + 1) s = runLoop body fuel s' := by
  rw [runLoop, loop, h]
  rfl

theorem runLoop_done {body : σ → Outcome ε (Flow σ ρ)} {fuel : Nat} {s : σ} {r : ρ}
    (h : body s = .ok (.done r)) : runLoop body (fuel + 1) s = .ok r := by
  rw [runLoop, loop, h]
  rfl

theorem runLoop_err {body : σ → Outcome ε (Flow σ ρ)} {fuel : Nat} {s : σ} {e : ε}
    (h : body s = .err e) : runLoop body (fuel + 1) s = .err e := by
  rw [runLoop, loop, h]
  rfl

theorem runLoop_diverge {body : σ → Outcome ε (Flow σ ρ)} {fuel : Nat} {s : σ}
    (h : body s = .diverge) : runLoop body (fuel + 1) s = .diverge := by
  rw [runLoop, loop, h]
  rfl

/-- What a loop that terminates ends in: the verdict of the iteration at which
it stops, whatever that verdict is. -/
theorem runLoop_eq_iff {body : σ → Outcome ε (Flow σ ρ)} {fuel : Nat} {s : σ} {r : Outcome ε ρ}
    (hfuel : ∃ r', loop (fun s => Flow.ofOutcome (body s)) fuel s = some r') :
    runLoop body fuel s = r ↔
      ∃ u, Reaches (fun s => Flow.ofOutcome (body s)) s u ∧ Flow.ofOutcome (body u) = .done r := by
  constructor
  · intro h
    rcases hfuel with ⟨r', hr'⟩
    have heq : r' = r := by
      rw [← h, runLoop, hr']
      rfl
    subst heq
    exact exists_reaches_of_loop hr'
  · rintro ⟨u, hreach, hdone⟩
    rw [runLoop, loop_eq_some hfuel hreach hdone]
    rfl

/-- The total-correctness rule of loops: iterations keep the invariant and decrease
the measure when they go on, and ensure `P` when they are done. -/
theorem runLoop_sat {body : σ → Outcome ε (Flow σ ρ)} (I : σ → Prop) (m : σ → Nat)
    {P : ρ → Prop}
    (hbody : ∀ s, I s → (body s).Sat (Flow.Sat (fun s' => I s' ∧ m s' < m s) P))
    {fuel : Nat} {s : σ} (hinit : I s) (hfuel : m s < fuel) : (runLoop body fuel s).Sat P := by
  induction fuel generalizing s with
  | zero => omega
  | succ fuel ih =>
    have hs := hbody s hinit
    unfold runLoop loop
    cases hb : body s with
    | ok flow =>
      rw [hb] at hs
      cases flow with
      | again s' =>
        simp only [Flow.ofOutcome]
        exact ih hs.1 (by have := hs.2; omega)
      | done r => exact hs
    | err e => exact trivial
    | panic =>
      rw [hb] at hs
      exact hs
    | diverge =>
      rw [hb] at hs
      exact hs

/-- The fuel does not matter once it is enough. -/
theorem runLoop_unique {body : σ → Outcome ε (Flow σ ρ)} {fuel more : Nat} {s : σ} {r : ρ}
    (hreturns : (runLoop body fuel s).Returns) (h : runLoop body more s = .ok r) :
    runLoop body fuel s = .ok r := by
  unfold runLoop at hreturns h ⊢
  cases hfuel : loop (fun s => Flow.ofOutcome (body s)) fuel s with
  | none =>
    rw [hfuel] at hreturns
    exact hreturns.elim
  | some x =>
    cases hmore : loop (fun s => Flow.ofOutcome (body s)) more s with
    | none =>
      rw [hmore] at h
      cases h
    | some y =>
      rw [hmore] at h
      have hx := loop_mono hfuel (Nat.le_max_left fuel more)
      have hy := loop_mono hmore (Nat.le_max_right fuel more)
      rw [hx] at hy
      rw [Option.some.inj hy]
      exact h

/-- The first iteration decides: states that it treats alike are alike. -/
theorem runLoop_congr {body : σ → Outcome ε (Flow σ ρ)} {fuel : Nat} {s s' : σ}
    (h : body s = body s') : runLoop body (fuel + 1) s = runLoop body (fuel + 1) s' := by
  simp only [runLoop, loop, h]

/-- A loop that returns does so from a state it reaches. -/
theorem exists_reaches_of_runLoop {body : σ → Outcome ε (Flow σ ρ)} {fuel : Nat} {s : σ} {r : ρ}
    (h : runLoop body fuel s = .ok r) :
    ∃ u, Reaches (fun s => Flow.ofOutcome (body s)) s u ∧ body u = .ok (.done r) := by
  unfold runLoop at h
  cases hloop : loop (fun s => Flow.ofOutcome (body s)) fuel s with
  | none =>
    rw [hloop] at h
    cases h
  | some r' =>
    rw [hloop] at h
    have hr : r' = .ok r := h
    rcases exists_reaches_of_loop hloop with ⟨u, hreach, hdone⟩
    rw [hr] at hdone
    refine ⟨u, hreach, ?_⟩
    revert hdone
    match body u with
    | .ok (.again v) => intro hdone; cases hdone
    | .ok (.done v) => intro hdone; cases hdone; rfl
    | .err e => intro hdone; cases hdone
    | .panic => intro hdone; cases hdone
    | .diverge => intro hdone; cases hdone

end Loop

/-! ## Machine words and slices -/

/-- The word sizes the program is built for. -/
inductive Width where
  | w32
  | w64
deriving DecidableEq, Repr

/-- A build: its word size, and whether additions are overflow-checked (a debug
build) or wrap (a release build). -/
structure Target where
  width : Width
  checked : Bool
deriving DecidableEq, Repr

/-- The number of values of a word. -/
def Width.modulus : Width → Nat
  | .w32 => 0x100000000
  | .w64 => 0x10000000000000000

/-- The number of `usize` values of a build. -/
def Target.modulus (t : Target) : Nat := t.width.modulus

theorem Target.modulus_ge (t : Target) : 0x100000000 ≤ t.modulus := by
  obtain ⟨w, c⟩ := t
  cases w <;> simp [Target.modulus, Width.modulus]

theorem Target.modulus_pos (t : Target) : 0 < t.modulus := by
  have h := t.modulus_ge
  omega

/-- `usize` addition. -/
def Target.add {ε : Type} (t : Target) (a b : Nat) : Outcome ε Nat :=
  if a + b < t.modulus then .ok (a + b)
  else if t.checked then .panic
  else .ok ((a + b) % t.modulus)

/-- An addition that fits is the addition of numbers, in every build. -/
theorem Target.add_of_lt {ε : Type} {t : Target} {a b : Nat} (h : a + b < t.modulus) :
    (t.add a b : Outcome ε Nat) = .ok (a + b) := by
  simp [Target.add, h]

/-- An addition that does not fit panics in a checked build and wraps around once in
a release build. -/
theorem Target.add_of_ge {ε : Type} {t : Target} {a b : Nat} (hge : t.modulus ≤ a + b)
    (hlt : a + b < t.modulus + t.modulus) :
    (t.add a b : Outcome ε Nat) = if t.checked then .panic else .ok (a + b - t.modulus) := by
  have hmod : (a + b) % t.modulus = a + b - t.modulus := by
    rw [Nat.mod_eq_sub_mod hge]
    exact Nat.mod_eq_of_lt (by omega)
  rw [Target.add, if_neg (by omega), hmod]

/-- The number of `u64` values. -/
def u64Values : Nat := 0x10000000000000000

/-- A `u64` operation whose exact result is `n`. -/
def Target.u64 {ε : Type} (t : Target) (n : Nat) : Outcome ε Nat :=
  if n < u64Values then .ok n
  else if t.checked then .panic
  else .ok (n % u64Values)

/-- The bound of the absolute value of an `i64`. -/
def i64Bound : Nat := 0x8000000000000000

/-- An `i64` operation whose exact result is `n`. -/
def Target.i64 {ε : Type} (t : Target) (n : Int) : Outcome ε Int :=
  if -(i64Bound : Int) ≤ n ∧ n < i64Bound then .ok n
  else if t.checked then .panic
  else .ok (n.bmod u64Values)

/-- `&bs[a..b]`. -/
def slice {ε α : Type} (bs : List α) (a b : Nat) : Outcome ε (List α) :=
  if a ≤ b ∧ b ≤ bs.length then .ok ((bs.drop a).take (b - a)) else .panic

/-- `&bs[a..]`. -/
def sliceFrom {ε α : Type} (bs : List α) (a : Nat) : Outcome ε (List α) :=
  if a ≤ bs.length then .ok (bs.drop a) else .panic

theorem slice_of_le {ε α : Type} {bs : List α} {a b : Nat} (hab : a ≤ b) (hb : b ≤ bs.length) :
    (slice bs a b : Outcome ε (List α)) = .ok ((bs.drop a).take (b - a)) := by
  simp [slice, hab, hb]

theorem slice_of_lt {ε α : Type} {bs : List α} {a b : Nat} (h : b < a ∨ bs.length < b) :
    (slice bs a b : Outcome ε (List α)) = .panic := by
  rw [slice, if_neg (by omega)]

theorem slice_zero {ε α : Type} {bs : List α} {b : Nat} (hb : b ≤ bs.length) :
    (slice bs 0 b : Outcome ε (List α)) = .ok (bs.take b) := by
  simp [slice, hb]

theorem sliceFrom_of_le {ε α : Type} {bs : List α} {a : Nat} (h : a ≤ bs.length) :
    (sliceFrom bs a : Outcome ε (List α)) = .ok (bs.drop a) := by
  simp [sliceFrom, h]

end Exec
