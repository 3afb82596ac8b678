/-
  SvgDraw.Proofs.Raster.ColorForms — which texts spell a colour.

  Between its blanks a colour is a hash sign and three, six or eight characters. `Spelled pair`
  gives the colour of such a text if two characters spell a byte as `pair` says, and a single one
  stands for two of itself. With hexadecimal digits (`DigitPair`) that is the documented reading,
  `Documented`. The reading that is made, `Accepted`, also takes a plus sign and a digit for the
  digit's byte (`SignedPair`), and nothing else (`color?_eq_some_iff`).

  So a documented text always has its documented colour, and the two readings differ exactly at
  the texts with a plus sign that are accepted (`documented_iff_unsigned`). These should be
  reported and paint black, and do neither: `color_as_documented_iff` says what every text paints
  and when that is as documented, and `color_as_documented_iff_signedGrey` is such a text.
-/

import Mathlib.Tactic.IntervalCases
import SvgDraw.Raster.Color
import SvgDraw.Proofs.Text.Trim

namespace SvgDraw.Raster

/-! ## Digits -/

def lowerDigits : List Char :=
  ['0', '1', '2', '3', '4', '5', '6', '7', '8', '9', 'a', 'b', 'c', 'd', 'e', 'f']

def upperDigits : List Char :=
  ['0', '1', '2', '3', '4', '5', '6', '7', '8', '9', 'A', 'B', 'C', 'D', 'E', 'F']

def HexDigit (c : Char) (value : Nat) : Prop :=
  lowerDigits[value]? = some c ∨ upperDigits[value]? = some c

theorem hexDigit_of_hexDigit? {c : Char} {value : Nat} (h : hexDigit? c = some value) :
    HexDigit c value := by
  have hc : c = Char.ofNat c.toNat := (Char.ofNat_toNat c).symm
  simp only [hexDigit?, Char.le_def, UInt32.le_iff_toNat_le] at h
  rw [hc]
  split at h
  · rename_i hr
    obtain rfl := Option.some.inj h
    have hlow : 48 ≤ c.toNat := hr.1
    have hhigh : c.toNat ≤ 57 := hr.2
    left
    interval_cases c.toNat <;> rfl
  · split at h
    · rename_i hr
      obtain rfl := Option.some.inj h
      have hlow : 97 ≤ c.toNat := hr.1
      have hhigh : c.toNat ≤ 102 := hr.2
      left
      interval_cases c.toNat <;> rfl
    · split at h
      · rename_i hr
        obtain rfl := Option.some.inj h
        have hlow : 65 ≤ c.toNat := hr.1
        have hhigh : c.toNat ≤ 70 := hr.2
        right
        interval_cases c.toNat <;> rfl
      · cases h

theorem hexDigit?_eq_some_iff (c : Char) (value : Nat) :
    hexDigit? c = some value ↔ HexDigit c value := by
  refine ⟨hexDigit_of_hexDigit?, ?_⟩
  rintro (h | h)
  · obtain ⟨hlt, rfl⟩ := List.getElem?_eq_some_iff.mp h
    have hlt : value < 16 := hlt
    interval_cases value <;> rfl
  · obtain ⟨hlt, rfl⟩ := List.getElem?_eq_some_iff.mp h
    have hlt : value < 16 := hlt
    interval_cases value <;> rfl

theorem not_hexDigit_plus (value : Nat) : ¬ HexDigit '+' value := by
  rw [← hexDigit?_eq_some_iff]
  have hnone : hexDigit? '+' = none := by decide
  simp [hnone]

/-! ## Pairs -/

def DigitPair (c d : Char) (byte : Nat) : Prop :=
  ∃ high low, HexDigit c high ∧ HexDigit d low ∧ byte = 16 * high + low

/-- A plus sign and a digit are taken for the digit. -/
def SignedPair (c d : Char) (byte : Nat) : Prop :=
  c = '+' ∧ HexDigit d byte

def ReadPair (c d : Char) (byte : Nat) : Prop :=
  DigitPair c d byte ∨ SignedPair c d byte

variable {c d : Char} {byte : Nat} {t : List Char} {rgba : Rgba}

theorem pairByte?_eq_some_iff (c d : Char) (byte : Nat) :
    pairByte? c d = some byte ↔ ReadPair c d byte := by
  by_cases hc : c = '+'
  · subst hc
    have hnot : ¬ DigitPair '+' d byte := by
      rintro ⟨high, low, hhigh, -, -⟩
      exact not_hexDigit_plus high hhigh
    simp [pairByte?, ReadPair, SignedPair, hnot, hexDigit?_eq_some_iff]
  · simp only [pairByte?, hc, if_false, ReadPair, SignedPair, false_and, or_false, DigitPair,
      Option.bind_eq_bind, Option.bind_eq_some_iff, Option.pure_def, Option.some.injEq,
      hexDigit?_eq_some_iff]
    constructor
    · rintro ⟨high, hhigh, low, hlow, rfl⟩
      exact ⟨high, low, hhigh, hlow, rfl⟩
    · rintro ⟨high, low, hhigh, hlow, rfl⟩
      exact ⟨high, hhigh, low, hlow, rfl⟩

theorem DigitPair.unsigned (h : DigitPair c d byte) : c ≠ '+' ∧ d ≠ '+' := by
  obtain ⟨high, low, hc, hd, -⟩ := h
  constructor
  · rintro rfl
    exact not_hexDigit_plus high hc
  · rintro rfl
    exact not_hexDigit_plus low hd

/-- Without a plus sign, a pair is read as two digits. -/
theorem ReadPair.digitPair (h : ReadPair c d byte) (hc : c ≠ '+') : DigitPair c d byte := by
  rcases h with h | ⟨rfl, -⟩
  · exact h
  · exact absurd rfl hc

/-! ## Colours -/

def strength (byte : Nat) : Float :=
  byte.toFloat / 255.0

/-- The text spells the colour, where two characters spell a byte as `pair` says. -/
inductive Spelled (pair : Char → Char → Nat → Prop) : List Char → Rgba → Prop where
  | three {r g b : Char} {red green blue : Nat} (hr : pair r r red) (hg : pair g g green)
      (hb : pair b b blue) :
      Spelled pair ['#', r, g, b] ⟨strength red, strength green, strength blue, 1.0⟩
  | six {r₁ r₂ g₁ g₂ b₁ b₂ : Char} {red green blue : Nat} (hr : pair r₁ r₂ red)
      (hg : pair g₁ g₂ green) (hb : pair b₁ b₂ blue) :
      Spelled pair ['#', r₁, r₂, g₁, g₂, b₁, b₂]
        ⟨strength red, strength green, strength blue, 1.0⟩
  | eight {r₁ r₂ g₁ g₂ b₁ b₂ a₁ a₂ : Char} {red green blue alpha : Nat} (hr : pair r₁ r₂ red)
      (hg : pair g₁ g₂ green) (hb : pair b₁ b₂ blue) (ha : pair a₁ a₂ alpha) :
      Spelled pair ['#', r₁, r₂, g₁, g₂, b₁, b₂, a₁, a₂]
        ⟨strength red, strength green, strength blue, strength alpha⟩

/-- The colour of a hash sign and three, six or eight hexadecimal digits. -/
def Documented : List Char → Rgba → Prop := Spelled DigitPair

/-- The colour of a hash sign and characters that are read in pairs. -/
def Accepted : List Char → Rgba → Prop := Spelled ReadPair

theorem Documented.accepted (h : Documented t rgba) : Accepted t rgba := by
  cases h with
  | three hr hg hb => exact .three (.inl hr) (.inl hg) (.inl hb)
  | six hr hg hb => exact .six (.inl hr) (.inl hg) (.inl hb)
  | eight hr hg hb ha => exact .eight (.inl hr) (.inl hg) (.inl hb) (.inl ha)

theorem Documented.unsigned (h : Documented t rgba) : '+' ∉ t := by
  have hash : '+' ≠ '#' := by decide
  cases h with
  | three hr hg hb =>
    simp [hash, hr.unsigned.1.symm, hg.unsigned.1.symm, hb.unsigned.1.symm]
  | six hr hg hb =>
    simp [hash, hr.unsigned.1.symm, hr.unsigned.2.symm, hg.unsigned.1.symm, hg.unsigned.2.symm,
      hb.unsigned.1.symm, hb.unsigned.2.symm]
  | eight hr hg hb ha =>
    simp [hash, hr.unsigned.1.symm, hr.unsigned.2.symm, hg.unsigned.1.symm, hg.unsigned.2.symm,
      hb.unsigned.1.symm, hb.unsigned.2.symm, ha.unsigned.1.symm, ha.unsigned.2.symm]

/-- A colour that is accepted is documented if its text has no plus sign. -/
theorem Accepted.documented (h : Accepted t rgba) (hplus : '+' ∉ t) : Documented t rgba := by
  have digits : ∀ {c d : Char} {byte : Nat}, ReadPair c d byte → c ∈ t → DigitPair c d byte := by
    intro c d byte hpair hc
    refine hpair.digitPair ?_
    rintro rfl
    exact hplus hc
  cases h with
  | three hr hg hb =>
    exact .three (digits hr (by simp)) (digits hg (by simp)) (digits hb (by simp))
  | six hr hg hb =>
    exact .six (digits hr (by simp)) (digits hg (by simp)) (digits hb (by simp))
  | eight hr hg hb ha =>
    exact .eight (digits hr (by simp)) (digits hg (by simp)) (digits hb (by simp))
      (digits ha (by simp))

theorem Accepted.head (h : Accepted t rgba) : ∃ digits, t = '#' :: digits := by
  cases h with
  | three => exact ⟨_, rfl⟩
  | six => exact ⟨_, rfl⟩
  | eight => exact ⟨_, rfl⟩

theorem documented_iff_unsigned : Documented t rgba ↔ Accepted t rgba ∧ '+' ∉ t :=
  ⟨fun h => ⟨h.accepted, h.unsigned⟩, fun h => h.1.documented h.2⟩

/-! ## What is read -/

theorem channel?_eq_some_iff (c d : Char) (x : Float) :
    channel? c d = some x ↔ ∃ byte, ReadPair c d byte ∧ strength byte = x := by
  simp only [channel?, Option.map_eq_some_iff, pairByte?_eq_some_iff, strength]

theorem hexColor?_eq_some_iff (cs : List Char) (rgba : Rgba) :
    hexColor? cs = some rgba ↔ Accepted ('#' :: cs) rgba := by
  constructor
  · intro h
    unfold hexColor? at h
    split at h
    · simp only [Option.bind_eq_bind, Option.bind_eq_some_iff, channel?_eq_some_iff,
        Option.pure_def, Option.some.injEq] at h
      obtain ⟨_, ⟨red, hr, rfl⟩, _, ⟨green, hg, rfl⟩, _, ⟨blue, hb, rfl⟩, rfl⟩ := h
      exact .three hr hg hb
    · simp only [Option.bind_eq_bind, Option.bind_eq_some_iff, channel?_eq_some_iff,
        Option.pure_def, Option.some.injEq] at h
      obtain ⟨_, ⟨red, hr, rfl⟩, _, ⟨green, hg, rfl⟩, _, ⟨blue, hb, rfl⟩, rfl⟩ := h
      exact .six hr hg hb
    · simp only [Option.bind_eq_bind, Option.bind_eq_some_iff, channel?_eq_some_iff,
        Option.pure_def, Option.some.injEq] at h
      obtain ⟨_, ⟨red, hr, rfl⟩, _, ⟨green, hg, rfl⟩, _, ⟨blue, hb, rfl⟩, _, ⟨alpha, ha, rfl⟩,
        rfl⟩ := h
      exact .eight hr hg hb ha
    · cases h
  · intro h
    have read : ∀ {c d : Char} {byte : Nat}, ReadPair c d byte →
        channel? c d = some (strength byte) :=
      fun hpair => (channel?_eq_some_iff _ _ _).mpr ⟨_, hpair, rfl⟩
    cases h with
    | three hr hg hb => simp [hexColor?, read hr, read hg, read hb]
    | six hr hg hb => simp [hexColor?, read hr, read hg, read hb]
    | eight hr hg hb ha => simp [hexColor?, read hr, read hg, read hb, read ha]

/-- A text spells a colour if what is left between its blanks is accepted. -/
theorem color?_eq_some_iff (text : String) (rgba : Rgba) :
    color? text = some rgba ↔ Accepted (trim text.toList) rgba := by
  unfold color?
  split
  · rename_i digits ht
    rw [ht]
    exact hexColor?_eq_some_iff digits rgba
  · rename_i hne
    constructor
    · intro h
      cases h
    · intro h
      obtain ⟨digits, ht⟩ := h.head
      exact absurd ht (hne digits)

theorem paints_of_accepted {text : String} (h : Accepted (trim text.toList) rgba) :
    paintColor text = rgba ∧ colorJournal text = [] := by
  have hcolor := (color?_eq_some_iff text rgba).mpr h
  simp [paintColor, colorJournal, hcolor]

theorem paints_of_not_accepted {text : String} (h : ¬ ∃ rgba, Accepted (trim text.toList) rgba) :
    paintColor text = .solidBlack ∧ colorJournal text = [.unsupportedColor text] := by
  have hcolor : color? text = none := by
    cases hc : color? text with
    | none => rfl
    | some rgba => exact absurd ⟨rgba, (color?_eq_some_iff text rgba).mp hc⟩ h
  simp [paintColor, colorJournal, hcolor]

/-! ## What is documented -/

/-- The text, with `t` between its blanks, paints as documented: if `t` spells a colour, that
    colour and without a report, and else opaque black with one report. -/
def PaintsAsDocumented (text : String) (t : List Char) : Prop :=
  (∀ rgba, Documented t rgba → paintColor text = rgba ∧ colorJournal text = []) ∧
    ((¬ ∃ rgba, Documented t rgba) →
      paintColor text = .solidBlack ∧ colorJournal text = [.unsupportedColor text])

/-- What a text paints and reports, by what stands between its blanks. A hash sign and three, six
    or eight characters that can be read in pairs give their colour, and every other text is
    reported once and paints opaque black. Among the pairs are all those of hexadecimal digits, so
    this is as documented, unless a text that is read has a plus sign in it. -/
theorem color_as_documented_iff (text : String) :
    ∃ before t after, text.toList = before ++ t ++ after ∧
      (∀ c ∈ before, isBlank c = true) ∧ (∀ c ∈ after, isBlank c = true) ∧ Bare isBlank t ∧
      (∀ rgba, Accepted t rgba → paintColor text = rgba ∧ colorJournal text = []) ∧
      ((¬ ∃ rgba, Accepted t rgba) →
        paintColor text = .solidBlack ∧ colorJournal text = [.unsupportedColor text]) ∧
      (∀ rgba, Documented t rgba ↔ Accepted t rgba ∧ '+' ∉ t) ∧
      (PaintsAsDocumented text t ↔ ¬ ∃ rgba, Accepted t rgba ∧ '+' ∈ t) := by
  obtain ⟨before, after, htext, hbefore, hafter⟩ := exists_eq_stripWhile isBlank text.toList
  refine ⟨before, trim text.toList, after, htext, hbefore, hafter, bare_stripWhile isBlank _,
    fun _ => paints_of_accepted, paints_of_not_accepted, fun _ => documented_iff_unsigned, ?_⟩
  constructor
  · rintro ⟨-, hother⟩ ⟨rgba, haccepted, hplus⟩
    -- The text is reported if it is not documented, and not reported since it is accepted.
    have hreport := (hother fun ⟨_, h⟩ => h.unsigned hplus).2
    rw [(paints_of_accepted haccepted).2] at hreport
    cases hreport
  · intro hsigned
    refine ⟨fun rgba h => paints_of_accepted h.accepted, fun hnone => ?_⟩
    refine paints_of_not_accepted fun ⟨rgba, h⟩ => ?_
    by_cases hplus : '+' ∈ trim text.toList
    · exact hsigned ⟨rgba, h, hplus⟩
    · exact hnone ⟨rgba, h.documented hplus⟩

/-- A plus sign in each pair: dark grey without a report, where the documented reading is black
    with one. -/
theorem color_as_documented_iff_signedGrey :
    let t := "#+f+f+f".toList
    (¬ ∃ rgba, Documented t rgba) ∧
      paintColor " #+f+f+f" = ⟨strength 15, strength 15, strength 15, 1.0⟩ ∧
      colorJournal " #+f+f+f" = [] ∧ ¬ PaintsAsDocumented " #+f+f+f" t := by
  intro t
  obtain ⟨before, found, after, htext, hbefore, hafter, hbare, hread, -, hdocumented, hiff⟩ :=
    color_as_documented_iff " #+f+f+f"
  have hfound : found = t := by
    have htrim := stripWhile_around hbefore hafter hbare
    rw [← htext] at htrim
    exact htrim.symm.trans (by decide)
  subst hfound
  have hdigit : HexDigit 'f' 15 := .inl rfl
  have hpair : ReadPair '+' 'f' 15 := .inr ⟨rfl, hdigit⟩
  have haccepted : Accepted t ⟨strength 15, strength 15, strength 15, 1.0⟩ :=
    Spelled.six hpair hpair hpair
  have hplus : '+' ∈ t := by decide
  refine ⟨?_, (hread _ haccepted).1, (hread _ haccepted).2, ?_⟩
  · rintro ⟨rgba, h⟩
    exact ((hdocumented rgba).mp h).2 hplus
  · rw [hiff]
    exact fun h => h ⟨_, haccepted, hplus⟩

end SvgDraw.Raster
