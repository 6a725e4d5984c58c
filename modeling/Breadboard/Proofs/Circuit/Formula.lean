import Mathlib.Data.List.FinRange
import Mathlib.Logic.Function.Basic

/-!
# Breadboard — formulas of nands

A `Formula` is built of variables by nothing but nand. That is enough for every function of at least one
bit: branch on one variable after the other, and take what the function says at the end of each branch
(`Formula.ofFunction`, `value_ofFunction`).

A formula is laid out on numbered nets as a list of joins (`Formula.joins`), each of which drives a net of its
own from two that come before it. The variables are the nets from 0 on, and the new nets are numbered from
`next` on, as many as the formula has connectives. Joins are worked off in order (`Join.applyAll`), and then

* `applyAll_joins` — the net of the formula carries its value, and no net below `next` has changed;
* `applyAll_outputJoins` — of several formulas, each drives an output with the opposite of its value.
-/

namespace Breadboard

/-- A formula in `n` variables whose only connective is nand. -/
inductive Formula (n : Nat) where
  | var (i : Fin n)
  | nand (a b : Formula n)
deriving DecidableEq

namespace Formula

variable {n : Nat}

/-- The value of a formula when the variables have the values `x`. -/
def value (x : Fin n → Bool) : Formula n → Bool
  | var i => x i
  | nand a b => !(a.value x && b.value x)

-- ---------------------------------------------------------------------------
-- Formulas for all functions
-- ---------------------------------------------------------------------------

/-- The opposite of a formula. -/
def not (a : Formula n) : Formula n := nand a a

/-- A formula of a fixed value; it needs a variable to start from. -/
def const (z : Fin n) : Bool → Formula n
  | true => nand (var z) (not (var z))
  | false => not (nand (var z) (not (var z)))

/-- The formula `a` where `s` is set, and `b` where it is not. -/
def choose (s a b : Formula n) : Formula n := nand (nand s a) (nand s.not b)

/-- A formula and its opposite differ everywhere. -/
@[simp] theorem value_not (x : Fin n → Bool) (a : Formula n) : a.not.value x = !a.value x := by
  simp [not, value]

/-- A constant has its value whatever the variables are. -/
@[simp] theorem value_const (x : Fin n → Bool) (z : Fin n) (b : Bool) : (const z b).value x = b := by
  cases b <;> simp [const, value]

/-- Choosing is a case distinction. -/
@[simp] theorem value_choose (x : Fin n → Bool) (s a b : Formula n) :
    (choose s a b).value x = if s.value x then a.value x else b.value x := by
  cases hs : s.value x <;> simp [choose, value, hs]

/-- Branches on the variables of a list, starting from the values `a`. -/
def branch (z : Fin n) (f : (Fin n → Bool) → Bool) : List (Fin n) → (Fin n → Bool) → Formula n
  | [], a => const z (f a)
  | i :: is, a =>
    choose (var i) (branch z f is (Function.update a i true)) (branch z f is (Function.update a i false))

/-- A formula for a function. -/
def ofFunction (z : Fin n) (f : (Fin n → Bool) → Bool) : Formula n :=
  branch z f (List.finRange n) fun _ => false

/-- Branching gives the value of the function where the other variables are as they were taken to be. -/
theorem value_branch (z : Fin n) (f : (Fin n → Bool) → Bool) {x : Fin n → Bool} {is : List (Fin n)}
    {a : Fin n → Bool} (h : ∀ i, i ∉ is → x i = a i) : (branch z f is a).value x = f x := by
  induction is generalizing a with
  | nil =>
    obtain rfl : x = a := funext fun i => h i List.not_mem_nil
    rw [branch, value_const]
  | cons i is ih =>
    -- the branch that is taken is the one in which variable `i` has its value
    have hTaken : (branch z f is (Function.update a i (x i))).value x = f x := by
      refine ih fun j hj => ?_
      by_cases hji : j = i
      · rw [hji, Function.update_self]
      · rw [Function.update_of_ne hji]
        exact h j (by simp [hji, hj])
    rw [branch, value_choose, value]
    cases hx : x i <;> rw [hx] at hTaken <;> simpa using hTaken

/-- **Every function of at least one bit has a formula.** -/
theorem value_ofFunction (z : Fin n) (f : (Fin n → Bool) → Bool) (x : Fin n → Bool) :
    (ofFunction z f).value x = f x :=
  value_branch z f fun i hi => absurd (List.mem_finRange i) hi

end Formula

-- ---------------------------------------------------------------------------
-- Joins
-- ---------------------------------------------------------------------------

/-- A nand of two nets that drives a third one. -/
structure Join where
  left : Nat
  right : Nat
  out : Nat
deriving DecidableEq

namespace Join

/-- What the nets carry after a join. -/
def apply (g : Join) (env : Nat → Bool) : Nat → Bool :=
  Function.update env g.out !(env g.left && env g.right)

/-- What the nets carry after some joins, one after the other. -/
def applyAll (gs : List Join) (env : Nat → Bool) : Nat → Bool :=
  gs.foldl (fun env g => g.apply env) env

/-- Joins in two lists, one after the other. -/
theorem applyAll_append (gs gs' : List Join) (env : Nat → Bool) :
    applyAll (gs ++ gs') env = applyAll gs' (applyAll gs env) :=
  List.foldl_append

theorem applyAll_cons (g : Join) (gs : List Join) (env : Nat → Bool) :
    applyAll (g :: gs) env = applyAll gs (g.apply env) := rfl

/-- A join is on nets below `k`. -/
def Below (g : Join) (k : Nat) : Prop := g.left < k ∧ g.right < k ∧ g.out < k

/-- What is below a number is below a larger one. -/
theorem Below.mono {g : Join} {j k : Nat} (h : g.Below j) (hjk : j ≤ k) : g.Below k :=
  ⟨h.1.trans_le hjk, h.2.1.trans_le hjk, h.2.2.trans_le hjk⟩

end Join

namespace Formula

variable {n : Nat}

/-- The number of connectives of a formula. -/
def size : Formula n → Nat
  | var _ => 0
  | nand a b => a.size + b.size + 1

/-- The net that carries the value of a formula that is laid out from net `next` on. -/
def net (next : Nat) : Formula n → Nat
  | var i => i
  | nand a b => next + a.size + b.size

/-- The joins of a formula, on new nets from `next` on. -/
def joins (next : Nat) : Formula n → List Join
  | var _ => []
  | nand a b =>
    a.joins next ++ b.joins (next + a.size) ++
      [⟨a.net next, b.net (next + a.size), next + a.size + b.size⟩]

/-- The net of a formula is a variable or one of its new nets. -/
theorem net_lt {next : Nat} (h : n ≤ next) (a : Formula n) : a.net next < next + a.size := by
  cases a with
  | var i => exact Nat.lt_of_lt_of_le i.isLt h
  | nand a b =>
    simp only [net, size]
    omega

/-- The joins of a formula are on variables and on its new nets. -/
theorem below_of_mem_joins {next : Nat} (h : n ≤ next) (a : Formula n) :
    ∀ g ∈ a.joins next, g.Below (next + a.size) := by
  induction a generalizing next with
  | var i => exact nofun
  | nand a b iha ihb =>
    have hSize : next + (nand a b).size = next + a.size + b.size + 1 := by
      simp only [size]
      omega
    rw [joins, List.forall_mem_append, List.forall_mem_append, List.forall_mem_singleton, hSize]
    have hNext : n ≤ next + a.size := by omega
    -- the left side, the right side, and the join of the two
    refine ⟨⟨fun g hg => (iha h g hg).mono (by omega), fun g hg => ?_⟩, ?_⟩
    · exact (ihb hNext g hg).mono (by omega)
    · have ha := a.net_lt h
      have hb := b.net_lt hNext
      exact ⟨Nat.lt_of_lt_of_le ha (by omega), Nat.lt_succ_of_lt hb, Nat.lt_succ_self _⟩

/-- The first nets carry the values of the variables. -/
def Carries (x : Fin n → Bool) (env : Nat → Bool) : Prop := ∀ i : Fin n, env i = x i

/-- **The joins of a formula compute its value**, and change no net below `next`. -/
theorem applyAll_joins {x : Fin n → Bool} {env : Nat → Bool} {next : Nat} (h : n ≤ next)
    (hx : Carries x env) (a : Formula n) :
    Join.applyAll (a.joins next) env (a.net next) = a.value x ∧
      ∀ k < next, Join.applyAll (a.joins next) env k = env k := by
  induction a generalizing next env with
  | var i => exact ⟨hx i, fun _ _ => rfl⟩
  | nand a b iha ihb =>
    rw [joins, Join.applyAll_append, Join.applyAll_append]
    obtain ⟨hValue, hFrame⟩ := iha h hx
    generalize Join.applyAll (a.joins next) env = env₁ at hValue hFrame
    have hx₁ : Carries x env₁ := fun i => (hFrame i (by omega)).trans (hx i)
    have hNext : n ≤ next + a.size := by omega
    obtain ⟨hValue₂, hFrame₂⟩ := ihb hNext hx₁
    generalize Join.applyAll (b.joins (next + a.size)) env₁ = env₂ at hValue₂ hFrame₂
    -- the net of `a` lies below the nets of `b`, so it still carries the value of `a`
    rw [← hFrame₂ _ (a.net_lt h)] at hValue
    constructor
    · show Function.update env₂ (next + a.size + b.size) _ (next + a.size + b.size) = _
      rw [Function.update_self, hValue, hValue₂, value]
    · -- nets below `next` are out of reach of all three
      intro k hk
      show Function.update env₂ (next + a.size + b.size) _ k = _
      rw [Function.update_of_ne (by omega), hFrame₂ k (by omega), hFrame k hk]

-- ---------------------------------------------------------------------------
-- Outputs
-- ---------------------------------------------------------------------------

/-- The number of connectives of some formulas. -/
def sizeAll : List (Formula n) → Nat
  | [] => 0
  | a :: as => a.size + sizeAll as

/-- The joins of some formulas, with one more join for each that drives an output with the opposite of its
value: outputs from `out` on, new nets from `next` on. -/
def outputJoins (next out : Nat) : List (Formula n) → List Join
  | [] => []
  | a :: as =>
    a.joins next ++ ⟨a.net next, a.net next, out⟩ :: outputJoins (next + a.size) (out + 1) as

/-- With the joins for the outputs it is the same, if outputs lie below the new nets. -/
theorem below_of_mem_outputJoins {next out : Nat} {as : List (Formula n)} (h : n ≤ next)
    (hOut : out + as.length ≤ next) : ∀ g ∈ outputJoins next out as, g.Below (next + sizeAll as) := by
  induction as generalizing next out with
  | nil => exact nofun
  | cons a as ih =>
    have hSize : next + sizeAll (a :: as) = next + a.size + sizeAll as := by
      rw [sizeAll, Nat.add_assoc]
    rw [List.length_cons] at hOut
    have hNet := a.net_lt h
    rw [outputJoins, List.forall_mem_append, List.forall_mem_cons, hSize]
    refine ⟨fun g hg => (a.below_of_mem_joins h g hg).mono (by omega), ?_, ?_⟩
    · exact ⟨Nat.lt_of_lt_of_le hNet (by omega), Nat.lt_of_lt_of_le hNet (by omega), by
        show out < _
        omega⟩
    · exact ih (by omega) (by omega)

/-- **Each output carries the opposite of its formula**, and no net below the outputs has changed. -/
theorem applyAll_outputJoins {x : Fin n → Bool} {env : Nat → Bool} {next out : Nat}
    {as : List (Formula n)} (h : n ≤ out) (hOut : out + as.length ≤ next) (hx : Carries x env) :
    (∀ j a, as[j]? = some a → Join.applyAll (outputJoins next out as) env (out + j) = !a.value x) ∧
      ∀ k < out, Join.applyAll (outputJoins next out as) env k = env k := by
  induction as generalizing next out env with
  | nil => exact ⟨nofun, fun _ _ => rfl⟩
  | cons a as ih =>
    rw [List.length_cons] at hOut
    rw [outputJoins, Join.applyAll_append, Join.applyAll_cons]
    have hNext : n ≤ next := by omega
    obtain ⟨hValue, hFrame⟩ := a.applyAll_joins hNext hx
    generalize Join.applyAll (a.joins next) env = env₁ at hValue hFrame
    -- the output is driven, and is below all that comes after it
    have hDriven : Join.apply ⟨a.net next, a.net next, out⟩ env₁ out = !a.value x := by
      rw [Join.apply, Function.update_self, hValue, Bool.and_self]
    have hKept : ∀ k < out, Join.apply ⟨a.net next, a.net next, out⟩ env₁ k = env k := by
      intro k hk
      rw [Join.apply, Function.update_of_ne (Nat.ne_of_lt hk), hFrame k (by omega)]
    have hx₁ : Carries x (Join.apply ⟨a.net next, a.net next, out⟩ env₁) :=
      fun i => (hKept i (by omega)).trans (hx i)
    generalize Join.apply ⟨a.net next, a.net next, out⟩ env₁ = env₂ at hDriven hKept hx₁
    have hOut₁ : out + 1 + as.length ≤ next + a.size := by omega
    obtain ⟨hRest, hRestKept⟩ := ih (Nat.le_succ_of_le h) hOut₁ hx₁
    constructor
    · intro j c hj
      cases j with
      | zero =>
        obtain rfl : a = c := by simpa using hj
        exact (hRestKept out (Nat.lt_succ_self out)).trans hDriven
      | succ j =>
        rw [Nat.add_comm j 1, ← Nat.add_assoc]
        exact hRest j c (by simpa using hj)
    · intro k hk
      rw [hRestKept k (by omega), hKept k hk]

end Formula

end Breadboard
