/-
  SvgDraw.Proofs.Number.Text — what the text of a number in a script is made of.

  Digits, a sign, a point and the letters of the two names (`numberChar_of_mem_scriptText`), and
  never nothing (`scriptText_ne_nil`). So whatever is not such a character ends the number.
-/

import SvgDraw.Number.Style

namespace SvgDraw.Number

def numberChar (c : Char) : Bool :=
  c.isDigit || "-.NaInfity".toList.contains c

theorem numberChar_of_isDigit {c : Char} (h : c.isDigit = true) : numberChar c = true := by
  simp [numberChar, h]

theorem isDigit_of_mem_digitsOf {n : Nat} {c : Char} (h : c ∈ digitsOf n) : c.isDigit = true :=
  Nat.isDigit_of_mem_toDigits (by decide) (by decide) h

theorem numberChar_of_mem_digitsOf {n : Nat} {c : Char} (h : c ∈ digitsOf n) :
    numberChar c = true :=
  numberChar_of_isDigit (isDigit_of_mem_digitsOf h)

theorem numberChar_of_mem_zeros {n : Nat} {c : Char} (h : c ∈ List.replicate n '0') :
    numberChar c = true := by
  rw [List.eq_of_mem_replicate h]
  rfl

theorem numberChar_of_mem_positional (d : Decimal) :
    ∀ c ∈ d.positional [], numberChar c = true := by
  intro c hc
  unfold Decimal.positional at hc
  dsimp only at hc
  split at hc
  · rw [List.append_nil] at hc
    rcases List.mem_append.mp hc with hc | hc
    · exact numberChar_of_mem_digitsOf hc
    · exact numberChar_of_mem_zeros hc
  · split at hc
    · rcases List.mem_append.mp hc with hc | hc
      · exact numberChar_of_mem_digitsOf (List.mem_of_mem_take hc)
      · rcases List.mem_cons.mp hc with rfl | hc
        · rfl
        · exact numberChar_of_mem_digitsOf (List.mem_of_mem_drop hc)
    · rcases List.mem_append.mp hc with hc | hc
      · rcases List.mem_cons.mp hc with rfl | hc
        · rfl
        · rcases List.mem_cons.mp hc with rfl | hc
          · rfl
          · exact numberChar_of_mem_zeros hc
      · exact numberChar_of_mem_digitsOf hc

theorem positional_ne_nil (d : Decimal) : d.positional [] ≠ [] := by
  unfold Decimal.positional
  dsimp only
  split
  · simp [digitsOf, Nat.toDigits_ne_nil]
  · split <;> simp

theorem numberChar_of_mem_sign {negative : Bool} {c : Char}
    (h : c ∈ if negative then ['-'] else []) : numberChar c = true := by
  cases negative with
  | false => cases h
  | true =>
    rw [List.mem_singleton.mp h]
    rfl

theorem numberChar_of_mem_infinity : ∀ c ∈ Style.script.infinity, numberChar c = true :=
  List.all_eq_true.mp (by decide)

theorem numberChar_of_mem_nan : ∀ c ∈ Style.script.nan, numberChar c = true :=
  List.all_eq_true.mp (by decide)

theorem numberChar_of_mem_scriptText (x : Float) :
    ∀ c ∈ (scriptText x).toList, numberChar c = true := by
  intro c hc
  rw [scriptText, String.toList_ofList] at hc
  unfold Style.chars at hc
  split at hc
  · exact numberChar_of_mem_nan c hc
  · rcases List.mem_append.mp hc with hc | hc
    · exact numberChar_of_mem_sign hc
    · exact numberChar_of_mem_infinity c hc
  · split at hc
    · simp only [Style.script, Bool.and_false, Bool.false_eq_true, if_false, List.nil_append,
        List.mem_singleton] at hc
      subst hc
      rfl
    · rcases List.mem_append.mp hc with hc | hc
      · exact numberChar_of_mem_sign hc
      · exact numberChar_of_mem_positional _ c hc

theorem scriptText_ne_nil (x : Float) : (scriptText x).toList ≠ [] := by
  rw [scriptText, String.toList_ofList]
  unfold Style.chars
  split
  · decide
  · simp [Style.script]
  · split
    · simp
    · intro h
      exact positional_ne_nil _ (List.append_eq_nil_iff.mp h).2

end SvgDraw.Number
