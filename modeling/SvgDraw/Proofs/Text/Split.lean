/-
  SvgDraw.Proofs.Text.Split — a text splits in one way where a class of characters ends.

  `Stops p rest` says that `rest` does not go on with a character of the class `p`. A text over
  `p` that is followed by such a rest is what `takeWhile p` takes (`takeWhile_append_stops`), so
  two such splits of one text are the same split (`split_unique`). A delimiter outside of `p` is
  the usual way for a text to stop (`delimited_unique`).
-/

import Mathlib.Data.List.TakeWhile
import SvgDraw.Text.Basic

namespace SvgDraw

variable {p : Char → Bool} {as bs rest x y : List Char} {c d : Char}

/-- The text does not begin with a character in `p`. -/
def Stops (p : Char → Bool) (rest : List Char) : Prop :=
  ∀ c ∈ rest.head?, p c = false

@[simp] theorem stops_nil : Stops p [] := by
  intro c hc
  cases hc

@[simp] theorem stops_cons : Stops p (c :: rest) ↔ p c = false := by
  simp [Stops]

theorem stops_dropWhile (p : Char → Bool) (cs : List Char) : Stops p (cs.dropWhile p) := by
  intro c hc
  have h := List.head?_dropWhile_not p cs
  rw [Option.mem_def.mp hc] at h
  exact h

theorem takeWhile_stops (h : Stops p rest) : rest.takeWhile p = [] := by
  cases rest with
  | nil => rfl
  | cons c cs => exact List.takeWhile_cons_of_neg (by simp [stops_cons.mp h])

theorem dropWhile_stops (h : Stops p rest) : rest.dropWhile p = rest := by
  cases rest with
  | nil => rfl
  | cons c cs => exact List.dropWhile_cons_of_neg (by simp [stops_cons.mp h])

theorem takeWhile_append_stops (has : ∀ c ∈ as, p c = true) (h : Stops p rest) :
    (as ++ rest).takeWhile p = as := by
  rw [List.takeWhile_append_of_pos has, takeWhile_stops h, List.append_nil]

theorem dropWhile_append_stops (has : ∀ c ∈ as, p c = true) (h : Stops p rest) :
    (as ++ rest).dropWhile p = rest := by
  rw [List.dropWhile_append_of_pos has, dropWhile_stops h]

/-- Two splits of one text after a part in `p`, each followed by what is not in `p`, are one. -/
theorem split_unique (has : ∀ c ∈ as, p c = true) (hbs : ∀ c ∈ bs, p c = true) (hx : Stops p x)
    (hy : Stops p y) (h : as ++ x = bs ++ y) : as = bs ∧ x = y := by
  constructor
  · rw [← takeWhile_append_stops has hx, h, takeWhile_append_stops hbs hy]
  · rw [← dropWhile_append_stops has hx, h, dropWhile_append_stops hbs hy]

/-- The same with a delimiter after each part. -/
theorem delimited_unique (has : ∀ c ∈ as, p c = true) (hbs : ∀ c ∈ bs, p c = true)
    (hc : p c = false) (hd : p d = false) (h : as ++ c :: x = bs ++ d :: y) :
    as = bs ∧ c = d ∧ x = y := by
  obtain ⟨rfl, hrest⟩ := split_unique has hbs (stops_cons.mpr hc) (stops_cons.mpr hd) h
  exact ⟨rfl, List.cons.inj hrest⟩

end SvgDraw
