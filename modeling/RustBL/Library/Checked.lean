import Mathlib.Data.Nat.Init
import Mathlib.Data.List.ProdSigma
import Mathlib.Algebra.Order.Ring.Nat
import Mathlib.Tactic.Ring

/-!
# Checked arithmetic on 64-bit words

A checked build of a Rust program stops at the first integer operation whose exact result does not
fit its type, at the first index outside its object, and never otherwise. A computation of such a
build is an `Except Fault`: `ok` carries the value, `error` says why the build stopped. A machine
word is a natural number, and `Word.add`, `Word.sub` and `Word.mul` fault exactly when the exact
result leaves `[0, 2 ^ 64)`. A run that ends in `ok` has therefore met no overflow, so the wrapping
arithmetic of a release build computes the same values along it.

`Word.checkedAdd`, `Word.checkedMul` and `Word.checkedNextMultipleOf` are the methods that return an
`Option` instead of stopping. `Word.nextMultipleOf` rounds up to a multiple (`roundUp` is its exact
value): `le_roundUp`, `dvd_roundUp` and `roundUp_le` say that the result is the least multiple not
below the argument.

`foldlM_eq_ok`, `foldlM_ok_mem`, `foldlM_product` and `forM_checks` are the rules for loops over
lists.

Each operation has one rule that rewrites a call to `ok` of the exact value under its side
condition (`Word.add_eq`, `Word.sub_eq`, `Word.mul_eq`, `Word.nextMultipleOf_eq`); proofs about
programs use these and never unfold an operation.
-/

set_option autoImplicit false
set_option relaxedAutoImplicit false

namespace RustBL

/-- Why a checked build stops. -/
inductive Fault
  /-- An integer operation whose exact result does not fit its type. -/
  | overflow
  /-- An index or an address outside the object it belongs to. -/
  | outOfBounds
  /-- A loop that was given fewer turns than it takes. -/
  | diverged
  deriving DecidableEq, Repr

/-- A computation of a checked build. -/
abbrev Checked (α : Type) := Except Fault α

section Monad

variable {ε α β : Type}

/-- A computation that succeeded hands its value on. -/
@[simp] theorem ok_bind (value : α) (next : α → Except ε β) :
    (Except.ok value >>= next) = next value :=
  rfl

/-- A computation that stopped stays stopped. -/
@[simp] theorem error_bind (fault : ε) (next : α → Except ε β) :
    ((Except.error fault : Except ε α) >>= next) = Except.error fault :=
  rfl

/-- `pure` is success. -/
@[simp] theorem pure_eq_ok (value : α) : (pure value : Except ε α) = Except.ok value :=
  rfl

/-- A sequence succeeds when its first part does and the rest does on its value. -/
theorem bind_eq_ok {first : Except ε α} {next : α → Except ε β} {result : β} :
    first >>= next = .ok result ↔ ∃ value, first = .ok value ∧ next value = .ok result := by
  cases first with
  | error fault => exact ⟨fun h ↦ (nomatch h), fun ⟨_, h, _⟩ ↦ (nomatch h)⟩
  | ok value => exact ⟨fun h ↦ ⟨value, rfl, h⟩, fun ⟨_, h, hnext⟩ ↦ Except.ok.inj h ▸ hnext⟩

/-- A first part that succeeds more often makes the sequence succeed more often. -/
theorem bind_mono {first first' : Except ε α} {next : α → Except ε β} {result : β}
    (hfirst : ∀ value, first = .ok value → first' = .ok value) (h : first >>= next = .ok result) :
    first' >>= next = .ok result := by
  obtain ⟨value, hvalue, hnext⟩ := bind_eq_ok.mp h
  exact bind_eq_ok.mpr ⟨value, hfirst value hvalue, hnext⟩

/-- A first part that keeps its results and its fault keeps the fault of the sequence. -/
theorem bind_error_mono {first first' : Except ε α} {next : α → Except ε β} {fault : ε}
    (hok : ∀ value, first = .ok value → first' = .ok value)
    (herror : first = .error fault → first' = .error fault)
    (h : first >>= next = .error fault) : first' >>= next = .error fault := by
  cases hfirst : first with
  | error stopped =>
    rw [hfirst, error_bind] at h
    have hsame : first = .error fault := hfirst.trans (congrArg _ (Except.error.inj h))
    rw [herror hsame, error_bind]
  | ok value =>
    rw [hfirst, ok_bind] at h
    rw [hok value hfirst, ok_bind]
    exact h

/-- A loop over a list whose body succeeds in every state of an invariant, and keeps it, computes
the plain fold and ends in the invariant. -/
theorem foldlM_eq_ok {items : List α} {body : β → α → Except ε β} {next : β → α → β} {start : β}
    (invariant : β → Prop)
    (hbody : ∀ state, invariant state → ∀ item ∈ items,
      body state item = .ok (next state item) ∧ invariant (next state item))
    (hstart : invariant start) :
    items.foldlM body start = .ok (items.foldl next start) ∧
      invariant (items.foldl next start) := by
  induction items generalizing start with
  | nil => exact ⟨rfl, hstart⟩
  | cons item items ih =>
    obtain ⟨hok, hnext⟩ := hbody start hstart item List.mem_cons_self
    rw [List.foldlM_cons, hok, ok_bind, List.foldl_cons]
    exact ih (fun state hstate later hlater ↦
      hbody state hstate later (List.mem_cons_of_mem _ hlater)) hnext

/-- A loop over a list whose body always succeeds computes the plain fold. -/
theorem foldlM_eq_foldl {items : List α} {body : β → α → Except ε β} {next : β → α → β} {start : β}
    (hbody : ∀ state, ∀ item ∈ items, body state item = .ok (next state item)) :
    items.foldlM body start = .ok (items.foldl next start) :=
  (foldlM_eq_ok (fun _ ↦ True) (fun state _ item hitem ↦ ⟨hbody state item hitem, trivial⟩)
    trivial).1

/-- A loop over a list that ends without a fault made every turn without one. -/
theorem foldlM_ok_mem {items : List α} {body : β → α → Except ε β} {start result : β} {item : α}
    (h : items.foldlM body start = .ok result) (hitem : item ∈ items) :
    ∃ state next, body state item = .ok next := by
  induction items generalizing start with
  | nil => exact absurd hitem List.not_mem_nil
  | cons first items ih =>
    rw [List.foldlM_cons] at h
    obtain ⟨next, hfirst, hrest⟩ := bind_eq_ok.mp h
    rcases List.mem_cons.mp hitem with rfl | hitem
    · exact ⟨start, next, hfirst⟩
    · exact ih hrest hitem

/-- Two nested loops are one loop over the pairs. -/
theorem foldlM_product {γ : Type} {outer : List α} {inner : List γ}
    {body : β → α × γ → Except ε β} {start : β} :
    (outer ×ˢ inner).foldlM body start =
      outer.foldlM (fun state a ↦ inner.foldlM (fun state c ↦ body state (a, c)) state) start := by
  induction outer generalizing start with
  | nil => rfl
  | cons a outer ih =>
    rw [List.product_cons, List.foldlM_append, List.foldlM_map, List.foldlM_cons]
    exact congrArg _ (funext fun state ↦ ih)

/-- A loop of checks fails with the message of the checks exactly when one of them does. -/
theorem forM_checks {items : List α} {check : α → ExceptT β (Except ε) Unit} (good : α → Prop)
    [DecidablePred good] {message : β}
    (h : ∀ item ∈ items, (check item).run = .ok (if good item then .ok () else .error message)) :
    (forM items check).run =
      .ok (if ∀ item ∈ items, good item then .ok () else .error message) := by
  induction items with
  | nil => rw [if_pos fun item hitem ↦ absurd hitem List.not_mem_nil]; rfl
  | cons item items ih =>
    rw [List.forall_mem_cons] at h
    rw [List.forM_cons, ExceptT.run_bind, h.1, ok_bind]
    by_cases hgood : good item
    · rw [if_pos hgood]
      refine (ih h.2).trans (congrArg Except.ok (if_congr ?_ rfl rfl))
      rw [List.forall_mem_cons, and_iff_right hgood]
    · rw [if_neg hgood, if_neg fun hall ↦ hgood (hall item List.mem_cons_self)]
      rfl

end Monad

/-! ### Rounding up -/

/-- The least multiple of `step` that is not below `value`, for `step > 0`. -/
def roundUp (value step : ℕ) : ℕ :=
  if value % step = 0 then value else value + (step - value % step)

theorem le_roundUp (value step : ℕ) : value ≤ roundUp value step := by
  unfold roundUp
  split_ifs <;> omega

theorem roundUp_lt {step : ℕ} (value : ℕ) (hstep : 0 < step) :
    roundUp value step < value + step := by
  unfold roundUp
  have hmod := Nat.mod_lt value hstep
  split_ifs <;> omega

theorem dvd_roundUp {step : ℕ} (value : ℕ) (hstep : 0 < step) : step ∣ roundUp value step := by
  unfold roundUp
  split_ifs with hzero
  · exact Nat.dvd_of_mod_eq_zero hzero
  · have hmod := Nat.mod_lt value hstep
    have hsplit := Nat.div_add_mod value step
    have hvalue : value + (step - value % step) = step * (value / step + 1) := by
      rw [Nat.mul_add, Nat.mul_one]
      omega
    rw [hvalue]
    exact Nat.dvd_mul_right _ _

/-- Rounding up counts the steps that a value begins. -/
theorem roundUp_eq_div {step : ℕ} (value : ℕ) (hstep : 0 < step) :
    roundUp value step = (value + (step - 1)) / step * step := by
  obtain ⟨count, hcount⟩ := dvd_roundUp value hstep
  have hlow := le_roundUp value step
  have hhigh := roundUp_lt value hstep
  have hdiv : (value + (step - 1)) / step = count := by
    refine Nat.div_eq_of_lt_le ?_ ?_
    · rw [Nat.mul_comm]
      omega
    · rw [Nat.add_mul, Nat.one_mul, Nat.mul_comm]
      omega
  rw [hdiv, hcount, Nat.mul_comm]

/-- `roundUp` is the least multiple of the step not below the value. -/
theorem roundUp_le {value step bound : ℕ} (hle : value ≤ bound) (hdvd : step ∣ bound) :
    roundUp value step ≤ bound := by
  rcases Nat.eq_zero_or_pos step with rfl | hstep
  · rw [Nat.zero_dvd.mp hdvd] at hle ⊢
    rw [Nat.le_zero.mp hle]
    simp [roundUp]
  · by_contra hlt
    have hnear := roundUp_lt value hstep
    obtain ⟨high, hhigh⟩ := dvd_roundUp value hstep
    obtain ⟨low, rfl⟩ := hdvd
    have hlow : low < high := Nat.lt_of_mul_lt_mul_left (by omega : step * low < step * high)
    have hgap : step * (low + 1) ≤ step * high := Nat.mul_le_mul_left _ hlow
    rw [Nat.mul_add, Nat.mul_one] at hgap
    omega

/-- Rounding up the maximum with a multiple leaves the multiple alone. -/
theorem roundUp_max_of_dvd {value bound step : ℕ} (hvalue : step ∣ value) :
    roundUp (max value bound) step = max value (roundUp bound step) := by
  have hbound := le_roundUp bound step
  rcases le_total value bound with hle | hle
  · rw [max_eq_right hle, max_eq_right (hle.trans hbound)]
  · have hround : roundUp bound step ≤ value := roundUp_le hle hvalue
    have hself : roundUp value step = value :=
      le_antisymm (roundUp_le le_rfl hvalue) (le_roundUp value step)
    rw [max_eq_left hle, max_eq_left hround, hself]

/-- Rounding up keeps every divisor of the step that divides the value. -/
theorem dvd_roundUp_of_dvd {value step grain : ℕ} (hvalue : grain ∣ value) (hstep : grain ∣ step) :
    grain ∣ roundUp value step := by
  unfold roundUp
  split_ifs
  · exact hvalue
  · exact Nat.dvd_add hvalue
      (Nat.dvd_sub hstep ((Nat.dvd_mod_iff hstep).mpr hvalue))

/-! ### Word operations -/

namespace Word

/-- `a + b` on words. -/
def add (a b : ℕ) : Checked ℕ :=
  if a + b < 2 ^ 64 then .ok (a + b) else .error .overflow

/-- `a - b` on words. -/
def sub (a b : ℕ) : Checked ℕ :=
  if b ≤ a then .ok (a - b) else .error .overflow

/-- `a * b` on words. -/
def mul (a b : ℕ) : Checked ℕ :=
  if a * b < 2 ^ 64 then .ok (a * b) else .error .overflow

/-- `a.next_multiple_of(step)` on words: the argument itself when it is a multiple already, and
otherwise a checked addition. -/
def nextMultipleOf (a step : ℕ) : Checked ℕ :=
  if a % step = 0 then .ok a else add a (step - a % step)

/-- `a.checked_add(b)`. -/
def checkedAdd (a b : ℕ) : Option ℕ :=
  if a + b < 2 ^ 64 then some (a + b) else none

/-- `a.checked_mul(b)`. -/
def checkedMul (a b : ℕ) : Option ℕ :=
  if a * b < 2 ^ 64 then some (a * b) else none

/-- `a.checked_next_multiple_of(step)`, which is `None` for a zero step. -/
def checkedNextMultipleOf (a step : ℕ) : Option ℕ :=
  if step = 0 then none
  else if a % step = 0 then some a
  else checkedAdd a (step - a % step)

theorem add_eq {a b : ℕ} (hfits : a + b < 2 ^ 64) : add a b = .ok (a + b) :=
  if_pos hfits

theorem sub_eq {a b : ℕ} (hle : b ≤ a) : sub a b = .ok (a - b) :=
  if_pos hle

theorem mul_eq {a b : ℕ} (hfits : a * b < 2 ^ 64) : mul a b = .ok (a * b) :=
  if_pos hfits

/-- A sum that is returned fits. -/
theorem add_eq_ok {a b c : ℕ} : add a b = .ok c ↔ a + b < 2 ^ 64 ∧ a + b = c := by
  unfold add
  split_ifs with hfits
  · exact ⟨fun heq ↦ ⟨hfits, Except.ok.inj heq⟩, fun heq ↦ congrArg Except.ok heq.2⟩
  · exact ⟨fun heq ↦ (nomatch heq), fun heq ↦ absurd heq.1 hfits⟩

/-- A product that is returned fits. -/
theorem mul_eq_ok {a b c : ℕ} : mul a b = .ok c ↔ a * b < 2 ^ 64 ∧ a * b = c := by
  unfold mul
  split_ifs with hfits
  · exact ⟨fun heq ↦ ⟨hfits, Except.ok.inj heq⟩, fun heq ↦ congrArg Except.ok heq.2⟩
  · exact ⟨fun heq ↦ (nomatch heq), fun heq ↦ absurd heq.1 hfits⟩

theorem nextMultipleOf_eq {a step : ℕ} (hfits : roundUp a step < 2 ^ 64) :
    nextMultipleOf a step = .ok (roundUp a step) := by
  unfold nextMultipleOf
  unfold roundUp at hfits ⊢
  split_ifs with hzero
  · rfl
  · rw [if_neg hzero] at hfits
    exact add_eq hfits

theorem checkedAdd_eq_some {a b c : ℕ} :
    checkedAdd a b = some c ↔ a + b < 2 ^ 64 ∧ a + b = c := by
  unfold checkedAdd
  split_ifs with hfits
  · exact ⟨fun heq ↦ ⟨hfits, Option.some.inj heq⟩, fun heq ↦ congrArg some heq.2⟩
  · exact ⟨fun heq ↦ (nomatch heq), fun heq ↦ absurd heq.1 hfits⟩

theorem checkedAdd_eq_none {a b : ℕ} : checkedAdd a b = none ↔ 2 ^ 64 ≤ a + b := by
  unfold checkedAdd
  split_ifs with hfits
  · exact ⟨fun heq ↦ (nomatch heq), fun hle ↦ absurd hle (not_le.mpr hfits)⟩
  · exact ⟨fun _ ↦ not_lt.mp hfits, fun _ ↦ rfl⟩

theorem checkedMul_eq_some {a b c : ℕ} :
    checkedMul a b = some c ↔ a * b < 2 ^ 64 ∧ a * b = c := by
  unfold checkedMul
  split_ifs with hfits
  · exact ⟨fun heq ↦ ⟨hfits, Option.some.inj heq⟩, fun heq ↦ congrArg some heq.2⟩
  · exact ⟨fun heq ↦ (nomatch heq), fun heq ↦ absurd heq.1 hfits⟩

theorem checkedNextMultipleOf_eq {a step : ℕ} (hstep : 0 < step) (ha : a < 2 ^ 64) :
    checkedNextMultipleOf a step =
      if roundUp a step < 2 ^ 64 then some (roundUp a step) else none := by
  unfold checkedNextMultipleOf checkedAdd roundUp
  rw [if_neg hstep.ne']
  split_ifs <;> simp_all

end Word

end RustBL
