import Mathlib

/-!
# (key: stackcalls) Programs of stack calls and their frame

A function that works on a stack only through `Pop`, `Peek`, `Back`, `Push`, `Dup` and `Swap`,
and may return early, is described by the sequence of those calls.  What it writes and whether it
returns early are functions of the values it has read (an `Oracle`), so the positions it touches
do not depend on the values.  Over any type of values, with the top of the stack at the head of
the list:

* `run`                 the calls on a stack; an index past the bottom is a panic;
* `height`, `exitHeights`   the same calls on the height of the stack alone;
* `run_frame`           a program that fits in the top items runs on those items alone, the rest
                        of the stack carried along untouched;
* `run_cases`           a program that fits never panics: it is done at the height `height`
                        computes, or returns at the height of one of its exits.
-/

namespace StackCalls

/-- one call on the stack -/
inductive Call where
  /-- read and remove the top -/
  | pop
  /-- the top, read and written through the pointer -/
  | peek
  /-- read the item `n` below the top -/
  | back (n : Nat)
  | push
  /-- push a copy of the `n`-th item, the top being the first -/
  | dup (n : Nat)
  /-- exchange the top and the `n`-th item -/
  | swap (n : Nat)
  /-- a point where the function may return -/
  | exit
deriving DecidableEq, Repr

/-- what a program computes from the values it has read so far: each value it writes, and at
each exit whether it returns there -/
structure Oracle (α : Type) where
  value : List α → α
  stop : List α → Bool

inductive Outcome (α : Type) where
  | panic
  /-- returned at an exit, with the stack as it was there -/
  | exit (stack : List α)
  | done (stack : List α)
deriving DecidableEq, Repr

variable {α : Type}

def Outcome.map (f : List α → List α) : Outcome α → Outcome α
  | .panic => .panic
  | .exit s => .exit (f s)
  | .done s => .done (f s)

/-- `Swap(n)`: the top and the `n`-th item exchanged -/
def swapAt (n : Nat) (x y : α) (s : List α) : List α :=
  (s.set 0 y).set (n - 1) x

/-- the calls on the stack `s`, the values read so far in `r` -/
def run (o : Oracle α) : List Call → List α → List α → Outcome α
  | [], _, s => .done s
  | .pop :: cs, r, s =>
    match s with
    | [] => .panic
    | x :: s => run o cs (r ++ [x]) s
  | .peek :: cs, r, s =>
    match s with
    | [] => .panic
    | x :: s => run o cs (r ++ [x]) (o.value (r ++ [x]) :: s)
  | .back n :: cs, r, s =>
    match s[n]? with
    | none => .panic
    | some x => run o cs (r ++ [x]) s
  | .push :: cs, r, s => run o cs r (o.value r :: s)
  | .dup n :: cs, r, s =>
    -- `Data[len - n]`: the index `len` of `Dup(0)` is past the end too
    if n = 0 then .panic
    else
      match s[n - 1]? with
      | none => .panic
      | some x => run o cs r (x :: s)
  | .swap n :: cs, r, s =>
    if n = 0 then .panic
    else
      match s[0]?, s[n - 1]? with
      | some x, some y => run o cs r (swapAt n x y s)
      | _, _ => .panic
  | .exit :: cs, r, s => if o.stop r then .exit s else run o cs r s

/-- the height at the end, or `none` if a call reaches past the bottom -/
def height : List Call → Nat → Option Nat
  | [], h => some h
  | .pop :: cs, h => if 0 < h then height cs (h - 1) else none
  | .peek :: cs, h => if 0 < h then height cs h else none
  | .back n :: cs, h => if n < h then height cs h else none
  | .push :: cs, h => height cs (h + 1)
  | .dup n :: cs, h => if 0 < n ∧ n ≤ h then height cs (h + 1) else none
  | .swap n :: cs, h => if 0 < n ∧ n ≤ h then height cs h else none
  | .exit :: cs, h => height cs h

/-- the heights at the exits -/
def exitHeights : List Call → Nat → List Nat
  | [], _ => []
  | .pop :: cs, h => exitHeights cs (h - 1)
  | .peek :: cs, h => exitHeights cs h
  | .back _ :: cs, h => exitHeights cs h
  | .push :: cs, h => exitHeights cs (h + 1)
  | .dup _ :: cs, h => exitHeights cs (h + 1)
  | .swap _ :: cs, h => exitHeights cs h
  | .exit :: cs, h => h :: exitHeights cs h

@[simp] theorem Outcome.map_panic (f : List α → List α) :
    (Outcome.panic : Outcome α).map f = .panic :=
  rfl

@[simp] theorem Outcome.map_exit (f : List α → List α) (s : List α) :
    (Outcome.exit s).map f = .exit (f s) :=
  rfl

@[simp] theorem Outcome.map_done (f : List α → List α) (s : List α) :
    (Outcome.done s).map f = .done (f s) :=
  rfl

theorem length_swapAt (n : Nat) (x y : α) (s : List α) : (swapAt n x y s).length = s.length := by
  simp [swapAt]

theorem swapAt_append {n : Nat} (x y : α) {s : List α} (hn : n - 1 < s.length) (t : List α) :
    swapAt n x y (s ++ t) = swapAt n x y s ++ t := by
  have h0 : 0 < s.length := by omega
  rw [swapAt, swapAt, List.set_append_left _ _ h0, List.set_append_left _ _ (by simpa using hn)]

/-- **The frame of a program.**  A program that fits on the items `xs` does the same on
`xs ++ rest`, and leaves `rest` where it was. -/
theorem run_frame (o : Oracle α) :
    ∀ (cs : List Call) (r xs rest : List α), height cs xs.length ≠ none →
      run o cs r (xs ++ rest) = (run o cs r xs).map (· ++ rest)
  | [], _, _, _, _ => rfl
  | .pop :: cs, r, xs, rest, hfit => by
    cases xs with
    | nil => simp [height] at hfit
    | cons x xs =>
      have hfit' : height cs xs.length ≠ none := by simpa [height] using hfit
      simp only [List.cons_append, run]
      exact run_frame o cs _ xs rest hfit'
  | .peek :: cs, r, xs, rest, hfit => by
    cases xs with
    | nil => simp [height] at hfit
    | cons x xs =>
      have hfit' : height cs (x :: xs).length ≠ none := by simpa [height] using hfit
      simp only [List.cons_append, run]
      exact run_frame o cs _ (_ :: xs) rest hfit'
  | .back n :: cs, r, xs, rest, hfit => by
    have hn : n < xs.length := by
      by_contra hn
      simp [height, hn] at hfit
    have hfit' : height cs xs.length ≠ none := by simpa [height, hn] using hfit
    have hget : (xs ++ rest)[n]? = xs[n]? := List.getElem?_append_left hn
    simp only [run, hget, List.getElem?_eq_getElem hn]
    exact run_frame o cs _ xs rest hfit'
  | .push :: cs, r, xs, rest, hfit => by
    have hfit' : height cs (o.value r :: xs).length ≠ none := by simpa [height] using hfit
    simp only [run]
    exact run_frame o cs r (_ :: xs) rest hfit'
  | .dup n :: cs, r, xs, rest, hfit => by
    have hn : 0 < n ∧ n ≤ xs.length := by
      by_contra hn
      simp [height, hn] at hfit
    have hfit' : height cs (xs[n - 1] :: xs).length ≠ none := by simpa [height, hn] using hfit
    have hget : (xs ++ rest)[n - 1]? = xs[n - 1]? := List.getElem?_append_left (by omega)
    simp only [run, if_neg (Nat.pos_iff_ne_zero.mp hn.1), hget,
      List.getElem?_eq_getElem (show n - 1 < xs.length by omega)]
    exact run_frame o cs r (_ :: xs) rest hfit'
  | .swap n :: cs, r, xs, rest, hfit => by
    have hn : 0 < n ∧ n ≤ xs.length := by
      by_contra hn
      simp [height, hn] at hfit
    have hfit' : height cs (swapAt n xs[0] xs[n - 1] xs).length ≠ none := by
      simpa [height, hn, length_swapAt] using hfit
    have hget0 : (xs ++ rest)[0]? = xs[0]? := List.getElem?_append_left (by omega)
    have hgetn : (xs ++ rest)[n - 1]? = xs[n - 1]? := List.getElem?_append_left (by omega)
    simp only [run, if_neg (Nat.pos_iff_ne_zero.mp hn.1), hget0, hgetn,
      List.getElem?_eq_getElem (show 0 < xs.length by omega),
      List.getElem?_eq_getElem (show n - 1 < xs.length by omega),
      swapAt_append _ _ (show n - 1 < xs.length by omega)]
    exact run_frame o cs r _ rest hfit'
  | .exit :: cs, r, xs, rest, hfit => by
    have hfit' : height cs xs.length ≠ none := by simpa [height] using hfit
    simp only [run]
    split
    · rfl
    · exact run_frame o cs r xs rest hfit'

/-- **A program that fits never panics.**  It ends at the height `height` computes, or returns at
an exit with the height `exitHeights` gives there. -/
theorem run_cases (o : Oracle α) :
    ∀ (cs : List Call) (r s : List α) {h : Nat}, height cs s.length = some h →
      (∃ s', run o cs r s = .done s' ∧ s'.length = h) ∨
        (∃ s', run o cs r s = .exit s' ∧ s'.length ∈ exitHeights cs s.length)
  | [], _, s, h, hh => by
    simp only [height, Option.some.injEq] at hh
    exact .inl ⟨s, rfl, hh⟩
  | .pop :: cs, r, s, h, hh => by
    cases s with
    | nil => simp [height] at hh
    | cons x s =>
      have hh' : height cs s.length = some h := by simpa [height] using hh
      simpa [run, exitHeights] using run_cases o cs _ s hh'
  | .peek :: cs, r, s, h, hh => by
    cases s with
    | nil => simp [height] at hh
    | cons x s =>
      have hh' : height cs (o.value (r ++ [x]) :: s).length = some h := by simpa [height] using hh
      simpa [run, exitHeights] using run_cases o cs _ _ hh'
  | .back n :: cs, r, s, h, hh => by
    have hn : n < s.length := by
      by_contra hn
      simp [height, hn] at hh
    have hh' : height cs s.length = some h := by simpa [height, hn] using hh
    simpa [run, exitHeights, List.getElem?_eq_getElem hn] using run_cases o cs _ s hh'
  | .push :: cs, r, s, h, hh => by
    have hh' : height cs (o.value r :: s).length = some h := by simpa [height] using hh
    simpa [run, exitHeights] using run_cases o cs r _ hh'
  | .dup n :: cs, r, s, h, hh => by
    have hn : 0 < n ∧ n ≤ s.length := by
      by_contra hn
      simp [height, hn] at hh
    have hh' : height cs (s[n - 1] :: s).length = some h := by simpa [height, hn] using hh
    have hcases := run_cases o cs r _ hh'
    simp only [List.length_cons] at hcases
    simpa [run, exitHeights, Nat.pos_iff_ne_zero.mp hn.1,
      List.getElem?_eq_getElem (show n - 1 < s.length by omega)] using hcases
  | .swap n :: cs, r, s, h, hh => by
    have hn : 0 < n ∧ n ≤ s.length := by
      by_contra hn
      simp [height, hn] at hh
    have hh' : height cs (swapAt n s[0] s[n - 1] s).length = some h := by
      simpa [height, hn, length_swapAt] using hh
    have hcases := run_cases o cs r _ hh'
    rw [length_swapAt] at hcases
    simpa [run, exitHeights, Nat.pos_iff_ne_zero.mp hn.1,
      List.getElem?_eq_getElem (show 0 < s.length by omega),
      List.getElem?_eq_getElem (show n - 1 < s.length by omega)] using hcases
  | .exit :: cs, r, s, h, hh => by
    have hh' : height cs s.length = some h := by simpa [height] using hh
    simp only [run, exitHeights, List.mem_cons]
    split
    · exact .inr ⟨s, rfl, .inl rfl⟩
    · rcases run_cases o cs r s hh' with hdone | ⟨s', hexit, hmem⟩
      · exact .inl hdone
      · exact .inr ⟨s', hexit, .inr hmem⟩

end StackCalls
