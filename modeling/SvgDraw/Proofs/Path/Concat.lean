/-
  SvgDraw.Proofs.Path.Concat — path data compiled in pieces.

  Path data that is cut before a blank or before a command can be read piece by piece: no numeral
  goes on across such a cut, so the second piece is read from the place where the first one ends
  (`Passes.replace`). Reading does not depend on where a text stands but for the positions it
  gives (`scan_shift`), so the second piece gives the tokens it gives on its own, and an error in
  it is moved by the length of the first piece. Tokens are resolved in order, the later ones from
  the pen that the earlier ones leave (`resolveTokens_append`). Both together are
  `compile_in_pieces`.
-/

import SvgDraw.Proofs.Path.Arity
import SvgDraw.Proofs.Path.Progress

namespace SvgDraw

/-! ## Moving a text -/

variable {k : Nat}

def LexError.shift (k : Nat) (e : LexError) : LexError := { e with position := e.position + k }

def Numeral.shift (k : Nat) (a : Numeral) : Numeral := { a with start := a.start + k }

def Placed.shift (k : Nat) (p : Placed) : Placed :=
  { p with position := p.position + k, numerals := p.numerals.map (Numeral.shift k) }

def Scan.shift (k : Nat) (s : Scan) : Scan :=
  ⟨s.commands.map (Placed.shift k), s.error.map (LexError.shift k)⟩

@[simp] theorem Placed.token_shift (p : Placed) : (p.shift k).token = p.token := by
  have hvalue : Numeral.value ∘ Numeral.shift k = Numeral.value := rfl
  simp only [token, shift, List.map_map, hvalue]

namespace Cursor

def shift (k : Nat) (c : Cursor) : Cursor := ⟨c.offset + k, c.rest⟩

def shiftRead {α : Type} (move : α → α) (k : Nat) :
    Except LexError (α × Cursor) → Except LexError (α × Cursor)
  | .ok (a, d) => .ok (move a, d.shift k)
  | .error e => .error (e.shift k)

theorem shift_next (position : Nat) (ch : Char) (rest : List Char) :
    (⟨position + ch.utf8Size, rest⟩ : Cursor).shift k = ⟨position + k + ch.utf8Size, rest⟩ := by
  simp only [shift, Nat.add_right_comm]

theorem past_shift (c : Cursor) (text rest : List Char) :
    (c.shift k).past text rest = (c.past text rest).shift k := by
  simp only [past, shift, Nat.add_right_comm]

theorem skipBlanks_shift (c : Cursor) : (c.shift k).skipBlanks = c.skipBlanks.shift k :=
  c.past_shift _ _

theorem skipSeparator_shift (c : Cursor) : (c.shift k).skipSeparator = c.skipSeparator.shift k := by
  have hrest : (c.skipBlanks.shift k).rest = c.skipBlanks.rest := rfl
  simp only [skipSeparator, skipBlanks_shift, past_shift, hrest]
  cases c.skipBlanks.rest with
  | nil => rfl
  | cons ch rest =>
    by_cases hch : ch = ','
    · subst hch
      rfl
    · simp [hch]

theorem numeral_shift (c : Cursor) :
    (c.shift k).numeral = shiftRead (Numeral.shift k) k c.numeral := by
  have hrest : (c.skipBlanks.shift k).rest = c.skipBlanks.rest := rfl
  simp only [numeral, skipBlanks_shift, past_shift, hrest]
  cases Number.read? (splitNumeral c.skipBlanks.rest).1 with
  | none => rfl
  | some value => rfl

theorem moreNumerals_shift (n : Nat) (c : Cursor) :
    (c.shift k).moreNumerals n = shiftRead (List.map (Numeral.shift k)) k (c.moreNumerals n) := by
  induction n generalizing c with
  | zero => rfl
  | succ n ih =>
    simp only [moreNumerals, skipSeparator_shift, numeral_shift]
    cases c.skipSeparator.numeral with
    | error e => rfl
    | ok r =>
      simp only [shiftRead, ih]
      cases r.2.moreNumerals n with
      | error e => rfl
      | ok s => rfl

theorem numerals_shift (n : Nat) (c : Cursor) :
    (c.shift k).numerals n = shiftRead (List.map (Numeral.shift k)) k (c.numerals n) := by
  cases n with
  | zero => rfl
  | succ n =>
    simp only [numerals, numeral_shift]
    cases c.numeral with
    | error e => rfl
    | ok r =>
      simp only [shiftRead, moreNumerals_shift]
      cases r.2.moreNumerals n with
      | error e => rfl
      | ok s => rfl

/-- A text is read alike wherever it stands. -/
theorem scan_shift (c : Cursor) : (c.shift k).scan = c.scan.shift k := by
  fun_induction scan c with
  | case1 position => exact scan_nil _
  | case2 position ch rest next hb ih =>
    rw [← ih, shift_next]
    exact scan_blank hb
  | case3 position ch rest hb hl => exact Halts.scan_eq (.character (by simpa using hb) hl)
  | case4 position ch rest next hb command hl e hn =>
    have hshift := next.numerals_shift (k := k) command.arity
    rw [hn, shift_next] at hshift
    exact Halts.scan_eq (.numeral (ofLetter?_eq_some_iff.mp hl) hshift)
  | case5 position ch rest next hb command hl as after hn _ ih =>
    have hshift := next.numerals_shift (k := k) command.arity
    rw [hn, shift_next] at hshift
    refine (scan_command (ofLetter?_eq_some_iff.mp hl) hshift).trans ?_
    rw [ih]
    rfl

end Cursor

/-! ## Reading in pieces -/

/-- The character is blank or begins a command. -/
def BeginsPiece (c : Char) : Prop := isBlank c = true ∨ (Command.ofLetter? c).isSome = true

/-- No numeral goes on with a character that begins a piece. -/
theorem BeginsPiece.inert {c : Char} (h : BeginsPiece c) : c.isDigit = false ∧ c ≠ '.' := by
  rcases h with hb | hl
  · constructor
    · rw [Bool.eq_false_iff]
      intro hd
      rw [isBlank_of_isDigit hd] at hb
      cases hb
    · rintro rfl
      exact absurd hb (by decide)
  · obtain ⟨command, hc⟩ := Option.isSome_iff_exists.mp hl
    rcases ofLetter?_eq_some_iff.mp hc with rfl | ⟨rfl, rfl⟩
    · rcases command with (_ | _) | (_ | _) | (_ | _) | (_ | _) | (_ | _) | _ <;> decide
    · decide

/-- A second piece is read on its own, from the place where the first one ends. -/
theorem scan_append {as bs : List Char} (ha : (Cursor.start as).scan.error = none)
    (hb : ∀ c ∈ bs.head?, BeginsPiece c) :
    (Cursor.start (as ++ bs)).scan =
      ((Cursor.start bs).scan.shift (byteLength as)).after (Cursor.start as).scan.commands := by
  obtain ⟨d, hpasses, hhalts⟩ := (Cursor.start as).scan_cases
  obtain ⟨text, hbehind⟩ := hpasses.behind
  rw [ha] at hhalts
  cases hhalts with
  | @done o =>
    obtain rfl : as = text := by simpa [Cursor.start] using hbehind.rest
    have hs : Substitute [] bs := fun c hc => .inr (hb c hc).inert
    have hcut := hpasses.replace hbehind.rest hs
    obtain rfl : o = 0 + byteLength as := hbehind.offset
    rw [← Cursor.scan_shift]
    exact hcut.scan_eq

theorem Scan.result_after (ps : List Placed) (s : Scan) :
    (s.after ps).result = s.result.map (ps.map Placed.token ++ ·) := by
  unfold result after
  cases s.error with
  | some e => rfl
  | none => simp [Except.map]

theorem Scan.result_shift (s : Scan) :
    (s.shift k).result = s.result.mapError (LexError.shift k) := by
  have htoken : Placed.token ∘ Placed.shift k = Placed.token := funext Placed.token_shift
  unfold result shift
  cases s.error with
  | some e => rfl
  | none => simp [Except.mapError, htoken]

theorem tokenize_append {a b : String} {as : List Token} (ha : tokenize a = .ok as)
    (hb : ∀ c ∈ b.toList.head?, BeginsPiece c) :
    tokenize (a ++ b) =
      ((tokenize b).mapError (LexError.shift a.utf8ByteSize)).map (as ++ ·) := by
  have herror := exists_tokenize_eq_ok_iff.mp ⟨as, ha⟩
  have hscan : scan (a ++ b) = ((scan b).shift a.utf8ByteSize).after (scan a).commands := by
    rw [← byteLength_toList, scan, String.toList_append]
    exact scan_append herror hb
  have htokens : (scan a).commands.map Placed.token = as := by
    rw [tokenize_eq_result, Scan.result, herror] at ha
    exact Except.ok.inj ha
  rw [tokenize_eq_result, hscan, Scan.result_after, Scan.result_shift, htokens]
  rfl

/-! ## Resolving in pieces -/

theorem resolveTokens_append {ts : List Token} {pen mid : Pen} {first : List Operation}
    (h : resolveTokens ts pen = (.ok first, mid)) (us : List Token) :
    resolveTokens (ts ++ us) pen =
      ((resolveTokens us mid).1.map (first ++ ·), (resolveTokens us mid).2) := by
  induction ts generalizing pen first with
  | nil =>
    cases h
    rw [List.nil_append]
    obtain ⟨result, last⟩ := resolveTokens us mid
    cases result with
    | error e => rfl
    | ok operations => rfl
  | cons t ts ih =>
    obtain ⟨operations, moved, more, hr, hmore, rfl⟩ := resolveTokens_cons_eq_ok_iff.mp h
    simp only [List.cons_append, resolveTokens, hr, ih hmore]
    cases (resolveTokens us mid).1 with
    | error e => rfl
    | ok rest => simp [Except.map]

theorem resolveTokens_of_tokenize {data : String} {tokens : List Token}
    (h : tokenize data = .ok tokens) (pen : Pen) :
    ∃ operations last, resolveTokens tokens pen = (.ok operations, last) := by
  obtain ⟨operations, hr⟩ := resolveTokens_of_fits (fits_of_tokenize h) pen
  exact ⟨operations, _, Prod.ext hr rfl⟩

theorem compilePath_of_resolveTokens {data : String} {tokens : List Token} {pen last : Pen}
    {operations : List Operation} (ht : tokenize data = .ok tokens)
    (hr : resolveTokens tokens pen = (.ok operations, last)) :
    compilePath data pen = (.ok operations, last) := by
  simp only [compilePath, ht, hr, Except.mapError]

/-- Path data that is cut where a piece begins is compiled piece by piece. If the first piece can
    be read, the whole gives its tokens and those of the second, or the error of the second piece,
    moved by the length of the first. And if both can be read, every pen draws the operations of
    the first piece and then those of the second, from where the first one left it, and ends where
    the second one leaves it. -/
theorem compile_in_pieces {a b : String} {as : List Token} (ha : tokenize a = .ok as)
    (hb : ∀ c ∈ b.toList.head?, isBlank c = true ∨ (Command.ofLetter? c).isSome = true) :
    (∀ bs, tokenize b = .ok bs → tokenize (a ++ b) = .ok (as ++ bs)) ∧
    (∀ cause position, tokenize b = .error ⟨cause, position⟩ →
      tokenize (a ++ b) = .error ⟨cause, position + a.utf8ByteSize⟩) ∧
    (∀ bs, tokenize b = .ok bs → ∀ pen, ∃ first mid second last,
      compilePath a pen = (.ok first, mid) ∧ compilePath b mid = (.ok second, last) ∧
        compilePath (a ++ b) pen = (.ok (first ++ second), last)) := by
  have happend := tokenize_append ha hb
  have hok : ∀ bs, tokenize b = .ok bs → tokenize (a ++ b) = .ok (as ++ bs) := by
    intro bs h
    rw [happend, h]
    rfl
  refine ⟨hok, ?_, ?_⟩
  · intro cause position h
    rw [happend, h]
    rfl
  · intro bs h pen
    obtain ⟨first, mid, hra⟩ := resolveTokens_of_tokenize ha pen
    obtain ⟨second, last, hrb⟩ := resolveTokens_of_tokenize h mid
    refine ⟨first, mid, second, last, compilePath_of_resolveTokens ha hra,
      compilePath_of_resolveTokens h hrb, compilePath_of_resolveTokens (hok bs h) ?_⟩
    rw [resolveTokens_append hra, hrb]
    rfl

/-- Two numbers with one point each, then a command right behind them or a blank of three bytes. -/
theorem compile_in_pieces_packed :
    tokenize "m1.5.5" = .ok [⟨.move .relative, [1.5, 0.5]⟩] ∧
    tokenize ("m1.5.5" ++ "h2z") =
      .ok [⟨.move .relative, [1.5, 0.5]⟩, ⟨.horizontal .relative, [2.0]⟩, ⟨.close, []⟩] ∧
    (∀ pen, ∃ first mid second last, compilePath "m1.5.5" pen = (.ok first, mid) ∧
      compilePath "h2z" mid = (.ok second, last) ∧
        compilePath ("m1.5.5" ++ "h2z") pen = (.ok (first ++ second), last)) ∧
    tokenize ("m1.5.5" ++ "\u3000v,") = .error ⟨.invalidNumber, 10⟩ := by
  have hfirst : tokenize "m1.5.5" = .ok [⟨.move .relative, [1.5, 0.5]⟩] := by decide +kernel
  have hsecond : tokenize "h2z" = .ok [⟨.horizontal .relative, [2.0]⟩, ⟨.close, []⟩] := by
    decide +kernel
  have hfault : tokenize "\u3000v," = .error ⟨.invalidNumber, 4⟩ := by decide +kernel
  obtain ⟨hok, -, hdrawn⟩ := compile_in_pieces (b := "h2z") hfirst (by
    intro c hc
    obtain rfl : 'h' = c := by simpa using hc
    exact .inr rfl)
  obtain ⟨-, herror, -⟩ := compile_in_pieces (b := "\u3000v,") hfirst (by
    intro c hc
    obtain rfl : '\u3000' = c := by simpa using hc
    exact .inl (by decide))
  exact ⟨hfirst, hok _ hsecond, hdrawn _ hsecond, herror _ _ hfault⟩

end SvgDraw
