/-
  SvgDraw.Markup.Reading — the elements of a document.

  A reading is the tags of a document in order, and the error that ended it before the end of
  the text, if there was one. Text between tags is passed over, and so are comments, character
  data, processing instructions, the document type and references, once their end is found.
  An end tag has to match the innermost element that is open; elements may stay open at the end.
-/

import SvgDraw.Markup.Attribute

namespace SvgDraw.Markup

inductive Event where
  | start (tag : Tag)
  /-- A tag that is a whole element. -/
  | empty (tag : Tag)
  | finish (name : List Char)
  deriving DecidableEq, Repr

structure Reading where
  events : List Event
  failure : Option Error
  deriving DecidableEq, Repr

def Reading.cons (event : Event) (r : Reading) : Reading :=
  { r with events := event :: r.events }

def Reading.stop (error : Error) : Reading :=
  ⟨[], some error⟩

/-! ## Where markup ends -/

def after? (mark : List Char) : List Char → Option (List Char)
  | [] => none
  | c :: cs => if mark.isPrefixOf (c :: cs) then some ((c :: cs).drop mark.length) else after? mark cs

/-- Split at the first `>` that is outside of nested angle brackets; `depth` of them are open. -/
def splitNested : Nat → List Char → Option (List Char × List Char)
  | _, [] => none
  | depth, c :: cs =>
    let go (depth : Nat) := (splitNested depth cs).map fun (content, rest) => (c :: content, rest)
    if c = '<' then go (depth + 1)
    else if c = '>' then
      match depth with
      | 0 => some ([], cs)
      | depth + 1 => go depth
    else go depth

/-- Split at the first `>` that is not between quotes; the text begins inside of `quote`, if one
is given. -/
def splitTag : Option Char → List Char → Option (List Char × List Char)
  | _, [] => none
  | quote, c :: cs =>
    let go (quote : Option Char) :=
      (splitTag quote cs).map fun (content, rest) => (c :: content, rest)
    match quote with
    | some q => go (if c = q then none else some q)
    | none =>
      if c = '>' then some ([], cs)
      else if c = '"' || c = '\'' then go (some c)
      else go none

/-! ## Pieces of markup -/

inductive Piece where
  | ignored
  /-- What stands between `<` and `>`. -/
  | tag (content : List Char)
  /-- What stands between `</` and `>`. -/
  | closing (content : List Char)
  deriving DecidableEq, Repr

def orError {α : Type} (error : SyntaxError) : Option α → Except Error α
  | some a => .ok a
  | none => .error (.syntactic error)

def comment (cs : List Char) : Except Error (List Char) :=
  orError .unclosedComment ((afterHead? ['-'] cs).bind (after? "-->".toList))

def characterData (cs : List Char) : Except Error (List Char) :=
  orError .unclosedData ((afterHead? "CDATA[".toList cs).bind (after? "]]>".toList))

def afterDoctype? (cs : List Char) : Option (List Char) :=
  if (cs.take 7).map Char.toUpper = "DOCTYPE".toList then some (cs.drop 7) else none

def documentType (cs : List Char) : Except Error (List Char) :=
  match (afterDoctype? cs).bind (splitNested 0) with
  | none => .error (.syntactic .unclosedDoctype)
  | some (content, rest) =>
    if content.all isSpace then .error (.illFormed .missingDoctypeName) else .ok rest

def declaration (cs : List Char) : Except Error (List Char) :=
  match cs with
  | '-' :: rest => comment rest
  | '[' :: rest => characterData rest
  | 'D' :: _ => documentType cs
  | 'd' :: _ => documentType cs
  | _ => .error (.syntactic .invalidBang)

/-- Past a processing instruction, from after `<?`. Its two marks may not share the question mark. -/
def instruction (cs : List Char) : Except Error (List Char) :=
  match cs with
  | '>' :: _ => .error (.syntactic .unclosedInstruction)
  | _ => orError .unclosedInstruction (after? "?>".toList cs)

/-- The piece of markup that begins with `<`, from after that, and what follows it. -/
def piece (cs : List Char) : Except Error (Piece × List Char) :=
  match cs with
  | '!' :: rest => (declaration rest).map (.ignored, ·)
  | '?' :: rest => (instruction rest).map (.ignored, ·)
  | '/' :: rest =>
    (orError .unclosedTag (splitTag none rest)).map fun (content, after) => (.closing content, after)
  | _ => (orError .unclosedTag (splitTag none cs)).map fun (content, after) => (.tag content, after)

/-! ### Pieces use text up -/

theorem length_after?_le {mark cs rest : List Char} (h : after? mark cs = some rest) :
    rest.length ≤ cs.length := by
  induction cs with
  | nil => cases h
  | cons c cs ih =>
    simp only [after?] at h
    split at h
    · cases h; simp
    · have := ih h
      simp; omega

theorem length_afterHead?_le {head cs rest : List Char} (h : afterHead? head cs = some rest) :
    rest.length ≤ cs.length := by
  simp only [afterHead?] at h
  split at h
  · cases h; simp
  · cases h

theorem length_splitNested_le {depth : Nat} {cs content rest : List Char}
    (h : splitNested depth cs = some (content, rest)) : rest.length ≤ cs.length := by
  induction cs generalizing depth content with
  | nil => cases h
  | cons c cs ih =>
    have go {depth : Nat} (h : (splitNested depth cs).map
        (fun (content, rest) => (c :: content, rest)) = some (content, rest)) :
        rest.length ≤ (c :: cs).length := by
      obtain ⟨⟨inner, after⟩, hs, he⟩ := Option.map_eq_some_iff.1 h
      cases he
      have := ih hs
      simp; omega
    simp only [splitNested] at h
    split at h
    · exact go h
    · split at h
      · split at h
        · cases h; simp
        · exact go h
      · exact go h

theorem length_splitTag_le {quote : Option Char} {cs content rest : List Char}
    (h : splitTag quote cs = some (content, rest)) : rest.length ≤ cs.length := by
  induction cs generalizing quote content with
  | nil => cases h
  | cons c cs ih =>
    have go {quote : Option Char} (h : (splitTag quote cs).map
        (fun (content, rest) => (c :: content, rest)) = some (content, rest)) :
        rest.length ≤ (c :: cs).length := by
      obtain ⟨⟨inner, after⟩, hs, he⟩ := Option.map_eq_some_iff.1 h
      cases he
      have := ih hs
      simp; omega
    simp only [splitTag] at h
    split at h
    · exact go h
    · split at h
      · cases h; simp
      · split at h
        · exact go h
        · exact go h

theorem eq_some_of_orError {α : Type} {error : SyntaxError} {a? : Option α} {a : α}
    (h : orError error a? = .ok a) : a? = some a := by
  cases a? <;> simp_all [orError]

theorem length_declaration_le {cs rest : List Char} (h : declaration cs = .ok rest) :
    rest.length ≤ cs.length := by
  have doctype (h : documentType cs = .ok rest) : rest.length ≤ cs.length := by
    simp only [documentType] at h
    split at h
    · cases h
    · rename_i hs
      obtain ⟨inner, hi, hn⟩ := Option.bind_eq_some_iff.1 hs
      split at h
      · cases h
      · cases h
        have := length_splitNested_le hn
        simp only [afterDoctype?] at hi
        split at hi
        · cases hi
          simp at this
          omega
        · cases hi
  unfold declaration at h
  split at h
  · obtain ⟨inner, hi, ha⟩ := Option.bind_eq_some_iff.1 (eq_some_of_orError h)
    have := length_afterHead?_le hi
    have := length_after?_le ha
    simp; omega
  · obtain ⟨inner, hi, ha⟩ := Option.bind_eq_some_iff.1 (eq_some_of_orError h)
    have := length_afterHead?_le hi
    have := length_after?_le ha
    simp; omega
  · exact doctype h
  · exact doctype h
  · cases h

theorem length_instruction_le {cs rest : List Char} (h : instruction cs = .ok rest) :
    rest.length ≤ cs.length := by
  unfold instruction at h
  split at h
  · cases h
  · exact length_after?_le (eq_some_of_orError h)

theorem exists_of_map_eq_ok {α β : Type} {x : Except Error α} {f : α → β} {b : β}
    (h : x.map f = .ok b) : ∃ a, x = .ok a ∧ f a = b := by
  cases x <;> simp_all [Except.map]

theorem length_piece_le {cs rest : List Char} {p : Piece} (h : piece cs = .ok (p, rest)) :
    rest.length ≤ cs.length := by
  unfold piece at h
  split at h
  · obtain ⟨_, hd, he⟩ := exists_of_map_eq_ok h
    cases he
    have := length_declaration_le hd
    simp; omega
  · obtain ⟨_, hd, he⟩ := exists_of_map_eq_ok h
    cases he
    have := length_instruction_le hd
    simp; omega
  · obtain ⟨⟨_, _⟩, hs, he⟩ := exists_of_map_eq_ok h
    cases he
    have := length_splitTag_le (eq_some_of_orError hs)
    simp; omega
  · obtain ⟨⟨_, _⟩, hs, he⟩ := exists_of_map_eq_ok h
    cases he
    exact length_splitTag_le (eq_some_of_orError hs)

/-! ## Reading -/

/-- The name in an end tag: spaces at its end do not count, unless there is nothing else. -/
def closingName (content : List Char) : List Char :=
  if content.all isSpace then content else dropEndWhile isSpace content

def closeElement (opened : List (List Char)) (name : List Char) :
    Except FormError (List (List Char)) :=
  match opened with
  | [] => .error (.unmatchedEnd (.ofList name))
  | innermost :: others =>
    if innermost = name then .ok others
    else .error (.mismatchedEnd (.ofList innermost) (.ofList name))

/-- The event of a tag, and the elements open after it. A slash at the end of the content makes the
tag a whole element. -/
def openElement (opened : List (List Char)) (content : List Char) : Event × List (List Char) :=
  match beforeTail? ['/'] content with
  | some inner => (.empty (.ofContent inner), opened)
  | none =>
    let tag := Tag.ofContent content
    (.start tag, tag.name :: opened)

def endsTextReference (c : Char) : Bool :=
  c = ';' || c = '&' || c = '<'

/-- Read on, with these elements open, the innermost first. -/
def readFrom (opened : List (List Char)) (cs : List Char) : Reading :=
  match cs with
  | [] => ⟨[], none⟩
  | c :: rest =>
    if c = '<' then
      match h : piece rest with
      | .error e => .stop e
      | .ok (p, after) =>
        have : after.length < (c :: rest).length := Nat.lt_succ_of_le (length_piece_le h)
        match p with
        | .ignored => readFrom opened after
        | .tag content =>
          let (event, inside) := openElement opened content
          .cons event (readFrom inside after)
        | .closing content =>
          let name := closingName content
          match closeElement opened name with
          | .error e => .stop (.illFormed e)
          | .ok outside => .cons (.finish name) (readFrom outside after)
    else if c = '&' then
      match h : rest.dropWhile (!endsTextReference ·) with
      | ';' :: after =>
        have : after.length < (c :: rest).length := by
          have := length_dropWhile_le (!endsTextReference ·) rest
          simp_all
          omega
        readFrom opened after
      | _ => .stop (.illFormed .unclosedReference)
    else readFrom opened rest
termination_by cs.length
decreasing_by all_goals simp only [List.length_cons] at *; omega

def byteOrderMark : Char := '\uFEFF'

def read (source : String) : Reading :=
  match source.toList with
  | [] => ⟨[], none⟩
  | c :: rest => readFrom [] (if c = byteOrderMark then rest else c :: rest)

end SvgDraw.Markup
