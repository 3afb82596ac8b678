/-
  SvgDraw.Proofs.Text.Trim — what is left of a text without its ends.

  `Stops p` says that a text does not begin with a character of the class `p`, and `EndsOutside p`
  that it does not end with one. A text that does neither is `Bare`. Trimming takes a text over `p`
  off either end and leaves a bare one (`exists_eq_stripWhile`, `bare_stripWhile`), and it finds
  the bare text between any two texts over `p` (`stripWhile_around`). Taking a given head or tail
  off undoes putting it there (`afterHead?_eq_some_iff`, `beforeTail?_eq_some_iff`).
-/

import Mathlib.Data.List.DropRight
import SvgDraw.Proofs.Text.Split

namespace SvgDraw

variable {p : Char → Bool} {as bs cs : List Char} {c : Char}

def EndsOutside (p : Char → Bool) (cs : List Char) : Prop :=
  ∀ c ∈ cs.getLast?, p c = false

/-- The text neither begins nor ends with a character in `p`. -/
def Bare (p : Char → Bool) (cs : List Char) : Prop :=
  Stops p cs ∧ EndsOutside p cs

@[simp] theorem endsOutside_nil : EndsOutside p [] := by
  intro c hc
  cases hc

@[simp] theorem endsOutside_concat : EndsOutside p (cs ++ [c]) ↔ p c = false := by
  simp [EndsOutside]

/-- A text in front matters only if nothing follows it. -/
theorem endsOutside_append (h : bs ≠ []) : EndsOutside p (as ++ bs) ↔ EndsOutside p bs := by
  simp only [EndsOutside, List.getLast?_append_of_ne_nil as h]

theorem endsOutside_iff_stops_reverse : EndsOutside p cs ↔ Stops p cs.reverse := by
  rw [EndsOutside, Stops, List.head?_reverse]

theorem endsOutside_dropEndWhile (p : Char → Bool) (cs : List Char) :
    EndsOutside p (dropEndWhile p cs) := by
  rw [endsOutside_iff_stops_reverse, dropEndWhile, List.reverse_reverse]
  exact stops_dropWhile p cs.reverse

theorem dropEndWhile_append (hbs : ∀ c ∈ bs, p c = true) (h : EndsOutside p cs) :
    dropEndWhile p (cs ++ bs) = cs := by
  rw [dropEndWhile, List.reverse_append,
    dropWhile_append_stops (by simpa using hbs) (endsOutside_iff_stops_reverse.mp h),
    List.reverse_reverse]

/-- What is taken off the end is in `p`. -/
theorem exists_eq_dropEndWhile (p : Char → Bool) (cs : List Char) :
    ∃ after, cs = dropEndWhile p cs ++ after ∧ ∀ c ∈ after, p c = true :=
  ⟨cs.rtakeWhile p, List.rdropWhile_append_rtakeWhile.symm, fun _ => List.mem_rtakeWhile_imp⟩

/-- A part from the front on begins as the whole does. -/
theorem Stops.of_append (h : Stops p (as ++ bs)) : Stops p as := by
  cases as with
  | nil => exact stops_nil
  | cons a as => exact stops_cons.mpr (stops_cons.mp h)

theorem bare_stripWhile (p : Char → Bool) (cs : List Char) : Bare p (stripWhile p cs) := by
  refine ⟨?_, endsOutside_dropEndWhile p _⟩
  obtain ⟨after, hafter, -⟩ := exists_eq_dropEndWhile p (cs.dropWhile p)
  have hstops := stops_dropWhile p cs
  rw [hafter] at hstops
  exact hstops.of_append

theorem exists_eq_stripWhile (p : Char → Bool) (cs : List Char) :
    ∃ before after, cs = before ++ stripWhile p cs ++ after ∧
      (∀ c ∈ before, p c = true) ∧ ∀ c ∈ after, p c = true := by
  obtain ⟨after, hafter, hin⟩ := exists_eq_dropEndWhile p (cs.dropWhile p)
  refine ⟨cs.takeWhile p, after, ?_, fun c hc => List.mem_takeWhile_imp hc, hin⟩
  rw [List.append_assoc, stripWhile, ← hafter, List.takeWhile_append_dropWhile]

/-- Between texts over `p`, a bare text is what is left. -/
theorem stripWhile_around (has : ∀ c ∈ as, p c = true) (hbs : ∀ c ∈ bs, p c = true)
    (h : Bare p cs) : stripWhile p (as ++ cs ++ bs) = cs := by
  rw [stripWhile, List.append_assoc]
  cases cs with
  | nil =>
    -- Nothing is left, so the texts over `p` run into each other.
    rw [List.nil_append, List.dropWhile_append_of_pos has]
    have hall : bs.dropWhile p = [] := List.dropWhile_eq_nil_iff.mpr hbs
    rw [hall]
    rfl
  | cons c cs =>
    have hstops : Stops p (c :: cs ++ bs) := stops_cons.mpr (stops_cons.mp h.1)
    rw [dropWhile_append_stops has hstops, dropEndWhile_append hbs h.2]

theorem stripWhile_of_bare (h : Bare p cs) : stripWhile p cs = cs := by
  have hnone : ∀ c ∈ [], p c = true := List.forall_mem_nil _
  simpa using stripWhile_around hnone hnone h

/-! ## A given head or tail -/

theorem afterHead?_eq_some_iff {head cs rest : List Char} :
    afterHead? head cs = some rest ↔ cs = head ++ rest := by
  unfold afterHead?
  constructor
  · intro h
    split at h
    · rename_i hhead
      obtain ⟨tail, rfl⟩ := List.isPrefixOf_iff_prefix.mp hhead
      simpa using h
    · cases h
  · rintro rfl
    simp

theorem beforeTail?_eq_some_iff {tail cs rest : List Char} :
    beforeTail? tail cs = some rest ↔ cs = rest ++ tail := by
  unfold beforeTail?
  constructor
  · intro h
    split at h
    · rename_i htail
      obtain ⟨front, rfl⟩ := List.isSuffixOf_iff_suffix.mp htail
      simpa using h
    · cases h
  · rintro rfl
    simp

end SvgDraw
