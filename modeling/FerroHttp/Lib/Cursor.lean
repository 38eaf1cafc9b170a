import FerroHttp.Lib.Exec

/-!
# Cursor — scanners that move a position

1. **Scanners**: a `Scan` reads a list at a position and leaves another one, also when it
   fails; `iterate` is its loop;
2. **Simulation**: `Simulates` compares a run of a scanner with that of a parser which is given
   the part of the list behind the position instead. Both end alike; the position has
   neither gone back nor passed the end, and at an error it is where the error says.

There is a rule for each way to build a scanner, so that a scanner and its counterpart are
compared piece by piece.
-/

namespace Cursor

open Exec

variable {ε α β γ δ σ τ ρ : Type}

/-! ## Scanners -/

/-- A run from a position: a result or an error, each with the position it leaves. -/
def Scan (ε α : Type) : Type := Nat → Outcome (ε × Nat) (α × Nat)

namespace Scan

instance : Monad (Scan ε) where
  pure a := fun i => .ok (a, i)
  bind m f := fun i => m i >>= fun r => f r.1 r.2

/-- The element at the position, if there is one. -/
def peek (xs : List δ) : Scan ε (Option δ) := fun i => .ok (xs[i]?, i)

def position : Scan ε Nat := fun i => .ok (i, i)

def moveTo (j : Nat) : Scan ε Unit := fun _ => .ok ((), j)

def advance (k : Nat) : Scan ε Unit := fun i => .ok ((), i + k)

/-- Fail with an error that may name the position. -/
def fail (error : Nat → ε) : Scan ε α := fun i => .err (error i, i)

/-- An operation that leaves the position alone, and may panic. -/
def checked (x : Outcome ε α) : Scan ε α := fun i =>
  match x with
  | .ok a => .ok (a, i)
  | .err e => .err (e, i)
  | .panic => .panic
  | .diverge => .diverge

/-- Iterate `step` from `s` for at most `fuel` iterations. -/
def iterate (step : σ → Scan ε (Flow σ ρ)) : Nat → σ → Scan ε ρ
  | 0, _ => fun _ => .diverge
  | fuel + 1, s => do
    match ← step s with
    | .again s' => iterate step fuel s'
    | .done r => pure r

/-- A loop that moves on with every iteration over a list of `length` elements. -/
def iterateTo (length : Nat) (step : σ → Scan ε (Flow σ ρ)) (s : σ) : Scan ε ρ := fun i =>
  iterate step (length - i + 1) s i

/-- Move over the elements that satisfy `p`. -/
def advanceWhile (xs : List δ) (p : δ → Bool) : Scan ε Unit :=
  iterateTo xs.length (fun _ => do
    match ← peek xs with
    | some x =>
      if p x then do
        advance 1
        pure (.again ())
      else pure (.done ())
    | none => pure (.done ())) ()

theorem bind_run (m : Scan ε α) (f : α → Scan ε β) (i : Nat) :
    (m >>= f) i = m i >>= fun r => f r.1 r.2 := rfl

@[simp] theorem pure_run (a : α) (i : Nat) : (pure a : Scan ε α) i = .ok (a, i) := rfl

@[simp] theorem fail_run (error : Nat → ε) (i : Nat) :
    (fail error : Scan ε α) i = .err (error i, i) := rfl

@[simp] theorem peek_bind (xs : List δ) (f : Option δ → Scan ε α) (i : Nat) :
    (peek xs >>= f) i = f xs[i]? i := rfl

@[simp] theorem position_bind (f : Nat → Scan ε α) (i : Nat) : (position >>= f) i = f i i := rfl

@[simp] theorem moveTo_bind (j : Nat) (f : Unit → Scan ε α) (i : Nat) :
    (moveTo j >>= f) i = f () j := rfl

@[simp] theorem advance_bind (k : Nat) (f : Unit → Scan ε α) (i : Nat) :
    (advance k >>= f) i = f () (i + k) := rfl

theorem checked_bind (a : α) (f : α → Scan ε β) (i : Nat) :
    (checked (.ok a) >>= f) i = f a i := rfl

end Scan

/-! ## The list behind a position -/

section Rest

variable {xs tail : List δ} {x : δ} {i : Nat}

theorem getElem?_of_drop_nil (h : xs.drop i = []) : xs[i]? = none := by
  rw [List.getElem?_eq_none_iff]
  exact List.drop_eq_nil_iff.mp h

theorem drop_cons (h : xs.drop i = x :: tail) :
    xs[i]? = some x ∧ i < xs.length ∧ xs.drop (i + 1) = tail := by
  have hlength := congrArg List.length h
  rw [List.length_drop, List.length_cons] at hlength
  refine ⟨?_, by omega, ?_⟩
  · rw [← List.head?_drop, h]
    rfl
  · rw [← List.tail_drop, h]
    rfl

/-- A scan over elements ends behind the first one that fails the test. -/
theorem advanceWhile_run (xs : List δ) (p : δ → Bool) (i : Nat) :
    (Scan.advanceWhile xs p : Scan ε Unit) i =
      .ok ((), i + ((xs.drop i).takeWhile p).length) := by
  unfold Scan.advanceWhile Scan.iterateTo
  -- by induction on the fuel, which is one more than what is left
  generalize hfuel : xs.length - i = fuel
  induction fuel generalizing i with
  | zero =>
    have hnil : xs.drop i = [] := List.drop_eq_nil_iff.mpr (by omega)
    rw [Scan.iterate, Scan.bind_run, Scan.peek_bind, getElem?_of_drop_nil hnil, hnil]
    rfl
  | succ fuel ih =>
    cases hdrop : xs.drop i with
    | nil =>
      rw [List.drop_eq_nil_iff] at hdrop
      omega
    | cons x tail =>
      obtain ⟨hget, hlt, htail⟩ := drop_cons hdrop
      have hrec := ih (i + 1) (by omega)
      rw [htail] at hrec
      rw [Scan.iterate, Scan.bind_run, Scan.peek_bind, hget]
      by_cases hp : p x = true
      · simp only [hp, if_true, Scan.advance_bind, Scan.pure_run, Outcome.ok_bind, hrec,
          List.takeWhile_cons, List.length_cons]
        congr 2
        omega
      · simp [hp]

end Rest

/-! ## Simulation -/

/-- What is known of the positions of a scanner: how far they may go, at which ones it may
stop, and which errors may be reported there. -/
structure Terrain (ε : Type) where
  size : Nat
  mark : Nat → Prop
  error : ε → Nat → Prop

/-- From position `i`, the run ends as its counterpart does: with related results, at a mark
if it has moved at all, or with the same error. -/
inductive Simulates (T : Terrain ε) (i : Nat) (R : α → Nat → γ → Prop) :
    Outcome (ε × Nat) (α × Nat) → Outcome ε γ → Prop
  | ok {a : α} {j : Nat} {c : γ} (hij : i ≤ j) (hj : j ≤ T.size) (hmark : i = j ∨ T.mark j)
      (h : R a j c) : Simulates T i R (.ok (a, j)) (.ok c)
  | err {e : ε} {j : Nat} (hij : i ≤ j) (hj : j ≤ T.size) (he : T.error e j) :
      Simulates T i R (.err (e, j)) (.err e)
  | diverge : Simulates T i R .diverge .diverge

/-- Two verdicts of loops are related: both go on, or both are done. -/
inductive FlowRel (I : σ → Nat → τ → Prop) (R : ρ → Nat → γ → Prop) :
    Flow σ ρ → Nat → Flow τ γ → Prop
  | again {s : σ} {j : Nat} {t : τ} (h : I s j t) : FlowRel I R (.again s) j (.again t)
  | done {r : ρ} {j : Nat} {c : γ} (h : R r j c) : FlowRel I R (.done r) j (.done c)

/-- The same value, and the list behind the position. -/
def Behind (xs : List δ) (a : α) (j : Nat) (c : α × List δ) : Prop := c = (a, xs.drop j)

namespace Simulates

variable {T : Terrain ε} {i j : Nat} {R : α → Nat → γ → Prop}
variable {x : Outcome (ε × Nat) (α × Nat)} {y : Outcome ε γ}

/-- A run may start before the scanner does. -/
theorem start (hij : i ≤ j) (hmark : i = j ∨ T.mark j) (h : Simulates T j R x y) :
    Simulates T i R x y := by
  cases h with
  | ok hjk hk hmark' hR =>
    refine .ok (Nat.le_trans hij hjk) hk ?_ hR
    rcases hmark' with rfl | hmark'
    · exact hmark
    · exact .inr hmark'
  | err hjk hk he => exact .err (Nat.le_trans hij hjk) hk he
  | diverge => exact .diverge

theorem mono {R' : α → Nat → γ → Prop} (h : Simulates T i R x y)
    (hR : ∀ a j c, R a j c → R' a j c) : Simulates T i R' x y := by
  cases h with
  | ok hij hj hmark h => exact .ok hij hj hmark (hR _ _ _ h)
  | err hij hj he => exact .err hij hj he
  | diverge => exact .diverge

/-- Sequencing: the second half starts where the first one has stopped. -/
theorem bind {β ζ : Type} {S : β → Nat → ζ → Prop} {m : Scan ε α} {f : α → Scan ε β}
    {g : γ → Outcome ε ζ} (hm : Simulates T i R (m i) y)
    (hf : ∀ a j c, i ≤ j → j ≤ T.size → y = .ok c → R a j c → Simulates T j S (f a j) (g c)) :
    Simulates T i S ((m >>= f) i) (y >>= g) := by
  rw [Scan.bind_run]
  generalize m i = x at hm
  cases hm with
  | ok hij hj hmark h => exact start hij hmark (hf _ _ _ hij hj rfl h)
  | err hij hj he => exact .err hij hj he
  | diverge => exact .diverge

/-- The counterpart may go on with what it returns. -/
theorem bind_right {ζ : Type} {S : α → Nat → ζ → Prop} {g : γ → ζ} (h : Simulates T i R x y)
    (hg : ∀ a j c, R a j c → S a j (g c)) : Simulates T i S x (y >>= fun c => .ok (g c)) := by
  cases h with
  | ok hij hj hmark h => exact .ok hij hj hmark (hg _ _ _ h)
  | err hij hj he => exact .err hij hj he
  | diverge => exact .diverge

/-- Both take the same branch. -/
theorem ite {c : Prop} [Decidable c] {m m' : Scan ε α} {y' : Outcome ε γ}
    (h : c → Simulates T i R (m j) y) (h' : ¬ c → Simulates T i R (m' j) y') :
    Simulates T i R ((if c then m else m') j) (if c then y else y') := by
  by_cases hc : c
  · rw [if_pos hc, if_pos hc]
    exact h hc
  · rw [if_neg hc, if_neg hc]
    exact h' hc

/-- A look at the next element finds it, or the end. -/
theorem peek {xs : List δ} {f : Option δ → Scan ε α}
    (hnil : xs.drop i = [] → Simulates T i R (f none i) y)
    (hcons : ∀ x tail, xs.drop i = x :: tail → i < xs.length → xs.drop (i + 1) = tail →
      Simulates T i R (f (some x) i) y) :
    Simulates T i R ((Scan.peek xs >>= f) i) y := by
  rw [Scan.peek_bind]
  cases hdrop : xs.drop i with
  | nil =>
    rw [getElem?_of_drop_nil hdrop]
    exact hnil hdrop
  | cons x tail =>
    obtain ⟨hget, hlt, htail⟩ := drop_cons hdrop
    rw [hget]
    exact hcons x tail hdrop hlt htail

/-- Loops whose iterations simulate each other do so themselves. -/
theorem iterate {I : σ → Nat → τ → Prop} {R : ρ → Nat → γ → Prop}
    {step : σ → Scan ε (Flow σ ρ)} {body : τ → Outcome ε (Flow τ γ)}
    (hstep : ∀ s j t, j ≤ T.size → I s j t → Simulates T j (FlowRel I R) (step s j) (body t))
    (fuel : Nat) {s : σ} {t : τ} (hi : i ≤ T.size) (hI : I s i t) :
    Simulates T i R (Scan.iterate step fuel s i) (runLoop body fuel t) := by
  induction fuel generalizing s t i with
  | zero => exact .diverge
  | succ fuel ih =>
    have h := hstep s i t hi hI
    rw [Scan.iterate, Scan.bind_run]
    generalize hx : step s i = x at h
    generalize hy : body t = y at h
    cases h with
    | ok hij hj hmark hflow =>
      cases hflow with
      | again hI' =>
        rw [runLoop_again hy]
        exact start hij hmark (ih hj hI')
      | done hR =>
        rw [runLoop_done hy]
        exact .ok hij hj hmark hR
    | err hij hj he =>
      rw [runLoop_err hy]
      exact .err hij hj he
    | diverge =>
      rw [runLoop_diverge hy]
      exact .diverge

/-- The same for a loop over what is left of a list. -/
theorem iterateTo {xs : List δ} {R : ρ → Nat → γ → Prop} {step : σ → Scan ε (Flow σ ρ)}
    {body : σ × List δ → Outcome ε (Flow (σ × List δ) γ)} (hsize : T.size = xs.length)
    (hstep : ∀ s j, j ≤ xs.length →
      Simulates T j (FlowRel (Behind xs) R) (step s j) (body (s, xs.drop j)))
    (s : σ) (hi : i ≤ xs.length) :
    Simulates T i R (Scan.iterateTo xs.length step s i)
      (runLoop body ((xs.drop i).length + 1) (s, xs.drop i)) := by
  rw [Scan.iterateTo, List.length_drop]
  refine iterate (I := Behind xs) ?_ _ (hsize ▸ hi) rfl
  intro s j t hj hI
  rw [hsize] at hj
  rw [show t = (s, xs.drop j) from hI]
  exact hstep s j hj

/-- Moving over elements drops them from what is left. -/
theorem advanceWhile {xs : List δ} {p : δ → Bool} {f : Unit → Scan ε α}
    (hmark : ∀ k x tail, xs.drop k = x :: tail → p x = true → T.mark (k + 1))
    (hi : i ≤ xs.length)
    (h : ∀ j, i ≤ j → j ≤ xs.length → xs.drop j = (xs.drop i).dropWhile p →
      Simulates T j R (f () j) y) :
    Simulates T i R ((Scan.advanceWhile xs p >>= f) i) y := by
  rw [Scan.bind_run, advanceWhile_run, Outcome.ok_bind]
  have hsplit := List.takeWhile_append_dropWhile (p := p) (l := xs.drop i)
  have hlength := congrArg List.length hsplit
  rw [List.length_append, List.length_drop] at hlength
  have hdrop : xs.drop (i + ((xs.drop i).takeWhile p).length) = (xs.drop i).dropWhile p :=
    calc xs.drop (i + ((xs.drop i).takeWhile p).length)
      _ = (xs.drop i).drop ((xs.drop i).takeWhile p).length := List.drop_drop.symm
      _ = ((xs.drop i).takeWhile p ++ (xs.drop i).dropWhile p).drop
          ((xs.drop i).takeWhile p).length := by rw [hsplit]
      _ = (xs.drop i).dropWhile p := List.drop_left
  refine start (by omega) ?_ (h _ (by omega) (by omega) hdrop)
  -- behind every element that is passed there is a mark
  clear h hsplit hlength hdrop hi
  generalize hrest : xs.drop i = rest
  induction rest generalizing i with
  | nil => exact .inl rfl
  | cons x tail ih =>
    rw [List.takeWhile_cons]
    split
    · rename_i hp
      have hnext := hmark i x tail hrest hp
      rw [List.length_cons, Nat.add_comm (List.length _), ← Nat.add_assoc]
      rcases ih (drop_cons hrest).2.2 with hend | hend
      · rw [← hend]
        exact .inr hnext
      · exact .inr hend
    · exact .inl rfl

end Simulates

end Cursor
