import Mathlib
import Reckoner.Proofs.Binary64.Order
import Reckoner.Proofs.Evaluation.Totality

/-!
# The Smallest and the Largest of Many Values

`min` and `max` go through their arguments once, from the left, starting from an infinity. What they
yield does not depend on that: it is a smallest or a largest of the arguments that are numbers, and
where the arguments do not mix the two zeros there is only one. So the arguments may be permuted,
repeated, and grouped into calls within a call.

Main definitions:

* `Binary64.Smallest`, `Binary64.Largest`: a smallest and a largest number among values;
* `Binary64.MixesZeros`: both zeros are among values, so that there is not one smallest number.

Main results:

* `Binary64.smallest_foldl_min`: the smaller of two values, taken along a list, is a smallest
  number;
* `Binary64.Smallest.unique`, `Binary64.Smallest.append`: there is one, and those of parts make up
  that of the whole;
* `Binary64.foldl_max_eq`: the largest value is the smallest one with all signs reversed;
* `Function.min_and_max_of_arguments`: all of it for the two functions, and for calls of them.
-/

namespace Reckoner

namespace Binary64

/-- `m` is a **smallest** number among `xs`: no number among them is less. NaN counts for
nothing. -/
structure Smallest (xs : List Binary64) (m : Binary64) : Prop where
  mem : m ∈ xs
  isNaN : m.isNaN = false
  le : ∀ x ∈ xs, x.isNaN = false → m.le x

/-- `m` is a **largest** number among `xs`: no number among them is greater. -/
structure Largest (xs : List Binary64) (m : Binary64) : Prop where
  mem : m ∈ xs
  isNaN : m.isNaN = false
  le : ∀ x ∈ xs, x.isNaN = false → x.le m

/-- Both zeros are among `xs`. They are equal in order, but they are not the same. -/
def MixesZeros (xs : List Binary64) : Prop :=
  zero false ∈ xs ∧ zero true ∈ xs

instance (xs : List Binary64) : Decidable (MixesZeros xs) :=
  inferInstanceAs (Decidable (_ ∧ _))

variable {xs ys : List Binary64} {m n : Binary64}

/-! ### Smallest numbers -/

namespace Smallest

/-- What is smallest depends on which values there are, not on their order or number. -/
theorem congr (h : Smallest xs m) (hmem : ∀ x, x ∈ xs ↔ x ∈ ys) : Smallest ys m :=
  ⟨(hmem m).1 h.mem, h.isNaN, fun x hx => h.le x ((hmem x).2 hx)⟩

/-- **There is one smallest number** where the zeros are not mixed. -/
theorem unique (hm : Smallest xs m) (hn : Smallest xs n) (hzeros : ¬MixesZeros xs) : m = n := by
  rcases eq_or_zeros_of_le_of_le (hm.le n hn.mem hn.isNaN) (hn.le m hm.mem hm.isNaN) with
    h | ⟨s, rfl, rfl⟩
  · exact h
  · refine absurd ?_ hzeros
    cases s
    · exact ⟨hm.mem, hn.mem⟩
    · exact ⟨hn.mem, hm.mem⟩

/-- A smallest number stands for the values it was found among. -/
theorem append (hm : Smallest xs m) (hn : Smallest (m :: ys) n) : Smallest (xs ++ ys) n := by
  refine ⟨?_, hn.isNaN, fun x hx hnumber => ?_⟩
  · rcases List.mem_cons.1 hn.mem with rfl | h
    · exact List.mem_append_left ys hm.mem
    · exact List.mem_append_right xs h
  · rcases List.mem_append.1 hx with hx | hx
    · exact le_trans (hn.le m List.mem_cons_self hm.isNaN) (hm.le x hx hnumber)
    · exact hn.le x (List.mem_cons_of_mem m hx) hnumber

end Smallest

/-- The smaller of a number and any value. -/
theorem smallest_min {x : Binary64} (hx : x.isNaN = false) (y : Binary64) :
    Smallest [x, y] (min x y) := by
  rw [min, hx, if_neg Bool.false_ne_true]
  by_cases hlt : y.lt x
  · have hle := le_of_lt hlt
    have hy : y.isNaN = false := by
      obtain ⟨i, -, hi, -⟩ := le_iff.1 hle
      exact isNaN_of_rank? hi
    rw [if_pos hlt]
    exact ⟨by simp, hy, by simpa [hle] using le_refl⟩
  · rw [if_neg hlt]
    refine ⟨by simp, hx, ?_⟩
    simpa [le_refl hx] using fun hy => le_of_not_lt hy hx hlt

/-- **The smaller of two values, taken along a list, is a smallest number.** The value to start with
has to be a number. -/
theorem smallest_foldl_min (xs : List Binary64) {x : Binary64} (hx : x.isNaN = false) :
    Smallest (x :: xs) (xs.foldl min x) := by
  induction xs generalizing x with
  | nil => exact ⟨List.mem_cons_self, hx, by simpa using fun _ => le_refl hx⟩
  | cons y xs ih =>
    have hmin := smallest_min hx y
    exact hmin.append (ih hmin.isNaN)

/-! ### The smallest of many values -/

/-- Infinity, which the smallest value is sought from, is not a zero. -/
theorem mixesZeros_cons_inf {s : Bool} : MixesZeros (inf s :: xs) ↔ MixesZeros xs := by
  simp [MixesZeros, zero]

/-- Infinity in front is not the smallest number, unless it is one of the others. -/
theorem smallest_of_cons_inf (h : Smallest (inf false :: xs) m)
    (hnumber : ∃ x ∈ xs, x.isNaN = false) :
    Smallest xs m := by
  refine ⟨?_, h.isNaN, fun x hx => h.le x (List.mem_cons_of_mem _ hx)⟩
  rcases List.mem_cons.1 h.mem with rfl | hmem
  · -- Infinity is smallest only among infinities.
    obtain ⟨x, hx, hxnumber⟩ := hnumber
    rcases eq_or_zeros_of_le_of_le (h.le x (List.mem_cons_of_mem _ hx) hxnumber)
      (le_inf hxnumber) with
      heq | ⟨s, heq, -⟩
    · rwa [heq]
    · cases heq
  · exact hmem

/-- Among nothing but NaN, the search ends with the infinity that it starts from. -/
theorem foldl_min_inf_of_isNaN (h : ∀ x ∈ xs, x.isNaN) : xs.foldl min (inf false) = inf false := by
  have hleast := smallest_foldl_min xs (x := inf false) rfl
  rcases List.mem_cons.1 hleast.mem with heq | hmem
  · exact heq
  · have hnumber := hleast.isNaN
    rw [h _ hmem] at hnumber
    cases hnumber

/-- The smallest value depends on which values there are, not on their order or number. -/
theorem foldl_min_inf_congr (hzeros : ¬MixesZeros xs) (hmem : ∀ x, x ∈ xs ↔ x ∈ ys) :
    xs.foldl min (inf false) = ys.foldl min (inf false) := by
  have hxs := smallest_foldl_min xs (x := inf false) rfl
  have hys := smallest_foldl_min ys (x := inf false) rfl
  refine hxs.unique (hys.congr fun x => ?_) (mt mixesZeros_cons_inf.1 hzeros)
  simp [hmem]

/-- The smallest value is the smaller one of those of two parts. -/
theorem foldl_min_inf_append (hzeros : ¬MixesZeros (xs ++ ys)) :
    (xs ++ ys).foldl min (inf false) =
      [xs.foldl min (inf false), ys.foldl min (inf false)].foldl min (inf false) := by
  have hxs := smallest_foldl_min xs (x := inf false) rfl
  have hys := smallest_foldl_min ys (x := inf false) rfl
  have hparts := smallest_foldl_min [xs.foldl min (inf false), ys.foldl min (inf false)]
    (x := inf false) rfl
  have hwhole := smallest_foldl_min (xs ++ ys) (x := inf false) rfl
  generalize xs.foldl min (inf false) = m at hxs hparts ⊢
  generalize ys.foldl min (inf false) = n at hys hparts ⊢
  refine hwhole.unique ?_ (mt mixesZeros_cons_inf.1 hzeros)
  -- Each part takes the place of its smallest number, one after the other.
  have hleft : Smallest (inf false :: xs ++ [n]) ([m, n].foldl min (inf false)) := by
    have hm : Smallest [m, inf false, n] ([m, n].foldl min (inf false)) :=
      hparts.congr (by simp [or_left_comm])
    exact (hxs.append hm).congr (by simp [or_left_comm])
  have hn : Smallest (n :: inf false :: xs) ([m, n].foldl min (inf false)) :=
    hleft.congr (by simp; tauto)
  exact (hys.append hn).congr (by simp; tauto)

/-- The smallest one of finite values is finite, if there is any. -/
theorem isFinite_foldl_min (hne : xs ≠ []) (hfinite : ∀ x ∈ xs, x.isFinite) :
    (xs.foldl min (inf false)).isFinite := by
  obtain ⟨x, hx⟩ := List.exists_mem_of_ne_nil xs hne
  have hnumber := isNaN_of_isFinite (hfinite x hx)
  exact hfinite _ (smallest_of_cons_inf (smallest_foldl_min xs rfl) ⟨x, hx, hnumber⟩).mem

/-! ### Reversed signs -/

/-- **The largest value is the smallest one with all signs reversed.** -/
theorem foldl_max_eq (xs : List Binary64) (x : Binary64) :
    xs.foldl max x = ((xs.map neg).foldl min x.neg).neg := by
  induction xs generalizing x with
  | nil => simp
  | cons y xs ih =>
    rw [List.foldl_cons, ih, max_eq_neg_min_neg, neg_neg, List.map_cons, List.foldl_cons]

/-- A value is among those with their signs changed if its opposite is among the values. -/
theorem mem_map_neg {x : Binary64} : x ∈ xs.map neg ↔ x.neg ∈ xs := by
  constructor
  · intro h
    obtain ⟨y, hy, rfl⟩ := List.mem_map.1 h
    rwa [neg_neg]
  · intro h
    exact List.mem_map.2 ⟨x.neg, h, neg_neg x⟩

/-- With all signs changed, both zeros are still there. -/
theorem mixesZeros_map_neg : MixesZeros (xs.map neg) ↔ MixesZeros xs := by
  rw [MixesZeros, mem_map_neg, mem_map_neg]
  exact and_comm

/-- The largest number is the opposite of the smallest one of the opposites. -/
theorem largest_neg_iff : Largest xs m.neg ↔ Smallest (xs.map neg) m := by
  constructor
  · rintro ⟨hmem, hnumber, hle⟩
    refine ⟨mem_map_neg.2 hmem, by simpa using hnumber, fun x hx hxnumber => ?_⟩
    have hneg := hle x.neg (mem_map_neg.1 hx) (by simpa using hxnumber)
    rwa [neg_le_neg] at hneg
  · rintro ⟨hmem, hnumber, hle⟩
    refine ⟨mem_map_neg.1 hmem, by simpa using hnumber, fun x hx hxnumber => ?_⟩
    have hneg := hle x.neg (mem_map_neg.2 (by simpa using hx)) (by simpa using hxnumber)
    rwa [← neg_le_neg, neg_neg]

/-- The largest value is found by a search for the smallest one, with all signs changed. -/
theorem foldl_max_inf_eq (xs : List Binary64) :
    xs.foldl max (inf true) = ((xs.map neg).foldl min (inf false)).neg :=
  foldl_max_eq xs (inf true)

/-- The largest value depends on which values there are, not on their order or number. -/
theorem foldl_max_inf_congr (hzeros : ¬MixesZeros xs) (hmem : ∀ x, x ∈ xs ↔ x ∈ ys) :
    xs.foldl max (inf true) = ys.foldl max (inf true) := by
  rw [foldl_max_inf_eq, foldl_max_inf_eq, foldl_min_inf_congr (mt mixesZeros_map_neg.1 hzeros)]
  intro x
  rw [mem_map_neg, mem_map_neg, hmem]

/-- The largest value is the greater one of those of two parts. -/
theorem foldl_max_inf_append (hzeros : ¬MixesZeros (xs ++ ys)) :
    (xs ++ ys).foldl max (inf true) =
      [xs.foldl max (inf true), ys.foldl max (inf true)].foldl max (inf true) := by
  rw [← mixesZeros_map_neg, List.map_append] at hzeros
  simp only [foldl_max_inf_eq, List.map_append, List.map_cons, List.map_nil, neg_neg]
  rw [foldl_min_inf_append hzeros]

end Binary64

/-! ### The two functions -/

namespace Function

open Binary64 (Smallest Largest MixesZeros)

variable {xs ys : List Binary64}

/-- Both functions take two arguments or more. -/
theorem accepts_iff_two_le {f : Function} (hf : f = min ∨ f = max) {count : Nat} :
    f.arity.Accepts count ↔ 2 ≤ count := by
  rcases hf with rfl | rfl <;> exact Iff.rfl

/-- The minimum is sought from infinity on, and is not refused. -/
theorem apply_min (h : 2 ≤ xs.length) :
    min.apply xs = .ok (xs.foldl Binary64.min (.inf false)) :=
  apply_of_accepts (f := min) h

/-- The maximum is sought from minus infinity on, and is not refused. -/
theorem apply_max (h : 2 ≤ xs.length) :
    max.apply xs = .ok (xs.foldl Binary64.max (.inf true)) :=
  apply_of_accepts (f := max) h

/-- Finite arguments have a finite smallest one. -/
theorem isTotal_min : IsTotal min := by
  intro xs haccepts hfinite
  have hlength : 2 ≤ xs.length := haccepts
  have hne : xs ≠ [] := List.ne_nil_of_length_pos (by omega)
  exact ⟨_, rfl, Binary64.isFinite_foldl_min hne hfinite⟩

/-- Finite arguments have a finite largest one. -/
theorem isTotal_max : IsTotal max := by
  intro xs haccepts hfinite
  have hlength : 2 ≤ xs.length := haccepts
  have hne : xs.map Binary64.neg ≠ [] := List.ne_nil_of_length_pos (by rw [List.length_map]; omega)
  refine ⟨_, rfl, ?_⟩
  rw [Binary64.foldl_max_inf_eq, Binary64.isFinite_neg]
  refine Binary64.isFinite_foldl_min hne fun x hx => ?_
  rw [← Binary64.isFinite_neg]
  exact hfinite _ (Binary64.mem_map_neg.1 hx)

/-- The minimum of numbers is a smallest one of them; without a number it is infinity. -/
theorem exists_apply_min (h : 2 ≤ xs.length) : ∃ m, min.apply xs = .ok m ∧
    ((∃ x ∈ xs, x.isNaN = false) → Smallest xs m) ∧ ((∀ x ∈ xs, x.isNaN) → m = .inf false) :=
  ⟨_, apply_min h, Binary64.smallest_of_cons_inf (Binary64.smallest_foldl_min xs rfl),
    Binary64.foldl_min_inf_of_isNaN⟩

/-- **The largest argument is the smallest one with all signs reversed.** -/
theorem apply_max_eq (h : 2 ≤ xs.length) :
    max.apply xs = (min.apply (xs.map Binary64.neg)).map Binary64.neg := by
  rw [apply_max h, apply_min (by simpa using h), Binary64.foldl_max_inf_eq]
  rfl

/-- The maximum of numbers is a largest one of them; without a number it is minus infinity. -/
theorem exists_apply_max (h : 2 ≤ xs.length) : ∃ m, max.apply xs = .ok m ∧
    ((∃ x ∈ xs, x.isNaN = false) → Largest xs m) ∧ ((∀ x ∈ xs, x.isNaN) → m = .inf true) := by
  have hlength : 2 ≤ (xs.map Binary64.neg).length := by rwa [List.length_map]
  obtain ⟨m, hm, hsmallest, hnan⟩ := exists_apply_min hlength
  refine ⟨m.neg, ?_, fun hnumber => ?_, fun hall => ?_⟩
  · rw [apply_max_eq h, hm]
    rfl
  · refine Binary64.largest_neg_iff.2 (hsmallest ?_)
    obtain ⟨x, hx, hxnumber⟩ := hnumber
    exact ⟨x.neg, List.mem_map_of_mem hx, by simpa using hxnumber⟩
  · rw [hnan (by simpa using hall)]
    rfl

/-- **The smallest and the largest argument.** Among two or more arguments, `min` yields a smallest
number and `max` a largest one, or an infinity if all of them are NaN, and each mirrors the other.
Where the zeros are not mixed, arguments may be permuted and may be grouped into calls. Finite
arguments have a finite result, so a call fails only through its first argument that fails or for
want of two arguments. -/
theorem min_and_max_of_arguments :
    (∀ xs : List Binary64, 2 ≤ xs.length → ¬MixesZeros xs →
      (∃ m, min.apply xs = .ok m ∧ ((∃ x ∈ xs, x.isNaN = false) → Smallest xs m) ∧
        ((∀ x ∈ xs, x.isNaN) → m = .inf false)) ∧
      (∃ m, max.apply xs = .ok m ∧ ((∃ x ∈ xs, x.isNaN = false) → Largest xs m) ∧
        ((∀ x ∈ xs, x.isNaN) → m = .inf true)) ∧
      max.apply xs = (min.apply (xs.map Binary64.neg)).map Binary64.neg ∧
      ∀ f, f = min ∨ f = max →
        (∀ ys : List Binary64, xs.Perm ys → f.apply ys = f.apply xs) ∧
        ∀ ys : List Binary64, 2 ≤ ys.length → ¬MixesZeros (xs ++ ys) →
          f.apply (xs ++ ys) = do
            let m ← f.apply xs
            let n ← f.apply ys
            f.apply [m, n]) ∧
    ∀ f, f = min ∨ f = max →
      (∀ xs : List Binary64, 2 ≤ xs.length → (∀ x ∈ xs, x.isFinite) →
        ∃ m, f.apply xs = .ok m ∧ m.isFinite) ∧
      ∀ (args : List Expr) (err : FormulaError), (Expr.call f args).eval = .error err ↔
        (∃ before e after, args = before ++ e :: after ∧ e.eval = .error err ∧
          ∀ t ∈ before, ∃ x, t.eval = .ok x) ∨
        ((∀ e ∈ args, ∃ x, e.eval = .ok x) ∧ args.length < 2 ∧
          err = .grammar (.argumentCount f args.length)) := by
  constructor
  · intro xs hlength hzeros
    refine ⟨exists_apply_min hlength, exists_apply_max hlength, apply_max_eq hlength, ?_⟩
    intro f hf
    constructor
    · intro ys hperm
      have hlength' : 2 ≤ ys.length := hperm.length_eq ▸ hlength
      rcases hf with rfl | rfl
      · rw [apply_min hlength, apply_min hlength',
          Binary64.foldl_min_inf_congr hzeros fun _ => hperm.mem_iff]
      · rw [apply_max hlength, apply_max hlength',
          Binary64.foldl_max_inf_congr hzeros fun _ => hperm.mem_iff]
    · intro ys hlength' hzeros'
      have hwhole : 2 ≤ (xs ++ ys).length := by
        rw [List.length_append]
        omega
      have hpair (m n : Binary64) : 2 ≤ [m, n].length := Nat.le_refl 2
      rcases hf with rfl | rfl
      · rw [apply_min hlength, apply_min hlength', apply_min hwhole, ok_bind, ok_bind,
          apply_min (hpair _ _), Binary64.foldl_min_inf_append hzeros']
      · rw [apply_max hlength, apply_max hlength', apply_max hwhole, ok_bind, ok_bind,
          apply_max (hpair _ _), Binary64.foldl_max_inf_append hzeros']
  · intro f hf
    -- Neither function refuses numbers: a call fails for its operands or their number.
    have htotal : f.IsTotal := by
      rcases hf with rfl | rfl
      · exact isTotal_min
      · exact isTotal_max
    constructor
    · intro xs hlength hfinite
      have haccepts := (accepts_iff_two_le hf).2 hlength
      rw [apply_of_accepts haccepts]
      exact htotal xs haccepts hfinite
    · intro args err
      rw [Expr.eval_call_eq_error_iff htotal, accepts_iff_two_le hf, Nat.not_le]

/-- Two, minus one and NaN, in two orders and with an infinity behind; no number at all; and a call
with one argument. -/
theorem min_and_max_of_arguments_nan :
    (¬MixesZeros [.nan, .ofInt 2, .ofInt (-1)] ∧
      (∃ m, min.apply [.nan, .ofInt 2, .ofInt (-1)] = .ok m ∧
        Smallest [.nan, .ofInt 2, .ofInt (-1)] m) ∧
      max.apply [.ofInt (-1), .nan, .ofInt 2] = max.apply [.nan, .ofInt 2, .ofInt (-1)] ∧
      max.apply [.nan, .ofInt 2, .ofInt (-1), .nan, .inf false] = do
        let m ← max.apply [.nan, .ofInt 2, .ofInt (-1)]
        let n ← max.apply [.nan, .inf false]
        max.apply [m, n]) ∧
    (∃ m, min.apply [.nan, .nan] = .ok m ∧ m = .inf false) ∧
    (∃ m, max.apply [.ofInt 2, .zero true] = .ok m ∧ m.isFinite) ∧
    (Expr.call min [.literal (.ofInt 2)]).eval = .error (.grammar (.argumentCount min 1)) := by
  have hzeros : ¬MixesZeros [.nan, .ofInt 2, .ofInt (-1)] := by decide +kernel
  have hnumbers := min_and_max_of_arguments.1 [.nan, .ofInt 2, .ofInt (-1)] (by decide) hzeros
  obtain ⟨m, hm, hsmallest, -⟩ := hnumbers.1
  obtain ⟨hperm, happend⟩ := hnumbers.2.2.2 max (.inr rfl)
  have hnan := (min_and_max_of_arguments.1 [.nan, .nan] (by decide) (by decide +kernel)).1
  obtain ⟨n, hn, -, hinf⟩ := hnan
  refine ⟨⟨hzeros, ⟨m, hm, hsmallest ?_⟩, ?_, ?_⟩, ⟨n, hn, ?_⟩, ?_, ?_⟩
  · exact ⟨.ofInt 2, by simp, by decide +kernel⟩
  · exact hperm _ (by decide +kernel)
  · exact happend [.nan, .inf false] (by decide) (by decide +kernel)
  · exact hinf (by decide)
  · exact (min_and_max_of_arguments.2 max (.inr rfl)).1 _ (by decide) (by decide +kernel)
  · refine ((min_and_max_of_arguments.2 min (.inl rfl)).2 _ _).2 (.inr ⟨?_, by decide, rfl⟩)
    simpa using ⟨.ofInt 2, by decide +kernel⟩

end Function

end Reckoner
