/-
  SvgDraw.Proofs.Markup.Writing — elements written as markup and read back.

  An attribute is written with its value between double quotes, where `&` and `"` are written as
  references. Values are read back by `unescape` (`unescape_escape`), attributes one after the
  other (`attributesFrom_written`), and a whole element in front of any document is read as one
  event before those of the document (`read_element`), whatever its values hold. Keys have to
  differ for that: no tag is read with a key that occurs twice (`Tag.keys_nodup`).
-/

import SvgDraw.Markup.Reading
import SvgDraw.Proofs.Text.Trim

namespace SvgDraw.Markup

/-! ## Values -/

def escapeChar (c : Char) : List Char :=
  if c = '&' then ['&', 'a', 'm', 'p', ';']
  else if c = '"' then ['&', 'q', 'u', 'o', 't', ';']
  else [c]

def escape (value : List Char) : List Char := value.flatMap escapeChar

theorem quote_not_mem_escape (value : List Char) : '"' ∉ escape value := by
  intro h
  obtain ⟨c, -, hc⟩ := List.mem_flatMap.mp h
  unfold escapeChar at hc
  by_cases hamp : c = '&'
  · simp [hamp] at hc
  · by_cases hquote : c = '"'
    · simp [hquote] at hc
    · simp only [hamp, hquote, if_false, List.mem_singleton] at hc
      exact hquote hc.symm

theorem unescapeFrom_plain {c : Char} (h : c ≠ '&') (stop offset : Nat) (rest : List Char) :
    unescapeFrom stop ⟨offset, c :: rest⟩ =
      (unescapeFrom stop ⟨offset + c.utf8Size, rest⟩).map (c :: ·) := by
  rw [unescapeFrom]
  simp [h]

/-- A reference by name is replaced by its character. -/
theorem unescapeFrom_named {name : List Char} {c : Char} (hname : named.lookup name = some c)
    (hhead : name.head? ≠ some '#') (hend : ∀ d ∈ name, endsReference d = false)
    (stop offset : Nat) (rest : List Char) :
    ∃ after, unescapeFrom stop ⟨offset, '&' :: name ++ ';' :: rest⟩ =
      (unescapeFrom stop ⟨after, rest⟩).map (c :: ·) := by
  have hall : ∀ d ∈ name, (!endsReference d) = true := by simpa using hend
  have hstops : Stops (!endsReference ·) (';' :: rest) := by simp [endsReference]
  have htake := takeWhile_append_stops hall hstops
  have hdrop := dropWhile_append_stops hall hstops
  have hresolve : resolveReference (offset + 1) name = .ok c := by
    unfold resolveReference
    split
    · simp at hhead
    · simp [hname]
  refine ⟨offset + byteLength name + 2, ?_⟩
  rw [List.cons_append, unescapeFrom]
  simp only [if_true]
  split
  · rename_i after hafter
    rw [hdrop] at hafter
    obtain rfl : rest = after := (List.cons.inj hafter).2
    simp only [htake, hresolve]
  · rename_i hne
    exact absurd hdrop (hne rest)

theorem unescapeFrom_escape (value : List Char) (stop offset : Nat) :
    unescapeFrom stop ⟨offset, escape value⟩ = .ok value := by
  induction value generalizing offset with
  | nil =>
    rw [escape, List.flatMap_nil, unescapeFrom]
  | cons c value ih =>
    have hcons : escape (c :: value) = escapeChar c ++ escape value := List.flatMap_cons
    rw [hcons, escapeChar]
    by_cases hamp : c = '&'
    · subst hamp
      have hname : named.lookup ['a', 'm', 'p'] = some '&' := by decide
      obtain ⟨after, hread⟩ := unescapeFrom_named hname (by decide) (by simp [endsReference]) stop
        offset (escape value)
      exact hread.trans (by rw [ih]; rfl)
    · by_cases hquote : c = '"'
      · subst hquote
        have hname : named.lookup ['q', 'u', 'o', 't'] = some '"' := by decide
        obtain ⟨after, hread⟩ := unescapeFrom_named hname (by decide) (by simp [endsReference]) stop
          offset (escape value)
        exact hread.trans (by rw [ih]; rfl)
      · simp only [hamp, hquote, if_false, List.singleton_append]
        rw [unescapeFrom_plain hamp, ih]
        rfl

/-- A value is read back. -/
theorem unescape_escape (value : List Char) : unescape (escape value) = .ok value :=
  unescapeFrom_escape value _ 0

/-! ## Attributes -/

/-- The text can be the name of an element or the key of an attribute. -/
def IsWord (cs : List Char) : Prop :=
  cs ≠ [] ∧ ∀ c ∈ cs, c.isAlphanum = true

theorem ne_of_isAlphanum {c d : Char} (hc : c.isAlphanum = true) (hd : d.isAlphanum = false) :
    c ≠ d := by
  rintro rfl
  rw [hc] at hd
  cases hd

theorem isSpace_of_isAlphanum {c : Char} (h : c.isAlphanum = true) : isSpace c = false := by
  simp only [isSpace, Bool.or_eq_false_iff, decide_eq_false_iff_not]
  refine ⟨⟨⟨?_, ?_⟩, ?_⟩, ?_⟩ <;> exact ne_of_isAlphanum h (by decide)

theorem endsKey_of_isAlphanum {c : Char} (h : c.isAlphanum = true) : endsKey c = false := by
  simp [endsKey, isSpace_of_isAlphanum h, ne_of_isAlphanum h (d := '=') (by decide)]

def attributeText (a : String × String) : List Char :=
  ' ' :: a.1.toList ++ '=' :: '"' :: escape a.2.toList ++ ['"']

def attributesText (attrs : List (String × String)) : List Char :=
  attrs.flatMap attributeText

theorem skipWhile_of_stops {p : Char → Bool} {c : Cursor} (h : Stops p c.rest) :
    c.skipWhile p = c := by
  simp [Cursor.skipWhile, Cursor.past, takeWhile_stops h, dropWhile_stops h]

theorem attributeText_append (a : String × String) (rest : List Char) :
    attributeText a ++ rest =
      ' ' :: (a.1.toList ++ '=' :: '"' :: (escape a.2.toList ++ '"' :: rest)) := by
  simp [attributeText]

theorem readValue_written (offset : Nat) (value rest : List Char) :
    ∃ after, readValue ⟨offset, '"' :: (escape value ++ '"' :: rest)⟩ =
      .ok (escape value, ⟨after, rest⟩) := by
  have hskip : Cursor.skipWhile isSpace ⟨offset, '"' :: (escape value ++ '"' :: rest)⟩ =
      ⟨offset, '"' :: (escape value ++ '"' :: rest)⟩ :=
    skipWhile_of_stops (stops_cons.mpr (by decide))
  have hin : ∀ c ∈ escape value, decide (c ≠ '"') = true := by
    intro c hc
    have hne : c ≠ '"' := fun h => quote_not_mem_escape value (h ▸ hc)
    simpa using hne
  have hstops : Stops (fun c => decide (c ≠ '"')) ('"' :: rest) := by simp
  unfold readValue
  simp only [hskip, takeWhile_append_stops hin hstops, dropWhile_append_stops hin hstops]
  exact ⟨_, rfl⟩

/-- An attribute is read up to what follows it, if its key is a new word. -/
theorem readAttribute_written {first : Char} {more value : List Char} {seen : List RawAttribute}
    (hkey : IsWord (first :: more)) (hnew : ∀ r ∈ seen, r.key ≠ first :: more) (c : Cursor)
    (rest : List Char) :
    ∃ after, readAttribute seen c first (more ++ '=' :: '"' :: (escape value ++ '"' :: rest)) =
      .ok (⟨c.offset, first :: more, escape value⟩, ⟨after, rest⟩) := by
  have hin : ∀ c ∈ more, (!endsKey c) = true := by
    intro c hc
    simpa using endsKey_of_isAlphanum (hkey.2 c (List.mem_cons_of_mem first hc))
  have hstops : Stops (!endsKey ·) ('=' :: '"' :: (escape value ++ '"' :: rest)) := by
    simp [endsKey]
  have hskip : ∀ d : Cursor, d.rest = '=' :: '"' :: (escape value ++ '"' :: rest) →
      d.skipWhile isSpace = d := by
    intro d hd
    refine skipWhile_of_stops ?_
    rw [hd]
    exact stops_cons.mpr (by decide)
  have hfresh : seen.find? (·.key = first :: more) = none := by
    simpa using hnew
  unfold readAttribute
  simp only [takeWhile_append_stops hin hstops, dropWhile_append_stops hin hstops]
  rw [hskip _ rfl]
  simp only [Cursor.past, hfresh]
  obtain ⟨after, hvalue⟩ :=
    readValue_written (c.offset + byteLength (first :: more) + byteLength ['=']) value rest
  rw [hvalue]
  exact ⟨after, rfl⟩

/-- Reading goes on after an attribute whose value can be unescaped. -/
theorem attributesFrom_cons {seen : List RawAttribute} {c after : Cursor} {first : Char}
    {rest value : List Char} {a : RawAttribute} (hrest : (c.skipWhile isSpace).rest = first :: rest)
    (hread : readAttribute seen (c.skipWhile isSpace) first rest = .ok (a, after))
    (hvalue : unescape a.value = .ok value) :
    attributesFrom seen c =
      (attributesFrom (a :: seen) after).map ((.ofList a.key, .ofList value) :: ·) := by
  rw [attributesFrom]
  split
  · rename_i hnil
    rw [hrest] at hnil
    cases hnil
  · rename_i hcons
    rw [hrest] at hcons
    cases hcons
    split
    · rename_i herror
      rw [hread] at herror
      cases herror
    · rename_i hok
      rw [hread] at hok
      cases hok
      simp only [hvalue]

theorem attributesFrom_attributeText {seen : List RawAttribute} {key : String}
    (hkey : IsWord key.toList) (hnew : ∀ r ∈ seen, r.key ≠ key.toList) (value : String)
    (offset : Nat) (rest : List Char) :
    ∃ position after, attributesFrom seen ⟨offset, attributeText (key, value) ++ rest⟩ =
      (attributesFrom (⟨position, key.toList, escape value.toList⟩ :: seen) ⟨after, rest⟩).map
        ((key, value) :: ·) := by
  obtain ⟨first, more, hfirst⟩ := List.exists_cons_of_ne_nil hkey.1
  have hspace : isSpace first = false := by
    refine isSpace_of_isAlphanum (hkey.2 first ?_)
    rw [hfirst]
    exact List.mem_cons_self
  have hrest : (Cursor.skipWhile isSpace ⟨offset, attributeText (key, value) ++ rest⟩).rest =
      first :: (more ++ '=' :: '"' :: (escape value.toList ++ '"' :: rest)) := by
    have hblank : isSpace ' ' = true := by decide
    rw [attributeText_append, hfirst]
    show List.dropWhile isSpace (' ' :: _) = _
    rw [List.dropWhile_cons_of_pos hblank]
    exact dropWhile_stops (stops_cons.mpr hspace)
  rw [hfirst] at hkey hnew
  obtain ⟨after, hread⟩ := readAttribute_written hkey hnew
    (Cursor.skipWhile isSpace ⟨offset, attributeText (key, value) ++ rest⟩) rest
  have hstep := attributesFrom_cons hrest hread (unescape_escape value.toList)
  simp only [← hfirst, String.ofList_toList] at hstep
  exact ⟨_, after, hstep⟩

/-- Attributes with different keys, each a word, are read back. -/
theorem attributesFrom_written {attrs : List (String × String)}
    (hkeys : ∀ a ∈ attrs, IsWord a.1.toList) (hnodup : (attrs.map (·.1)).Nodup)
    {seen : List RawAttribute} (hnew : ∀ a ∈ attrs, ∀ r ∈ seen, r.key ≠ a.1.toList)
    (offset : Nat) : attributesFrom seen ⟨offset, attributesText attrs⟩ = .ok attrs := by
  induction attrs generalizing seen offset with
  | nil =>
    rw [attributesFrom]
    rfl
  | cons a attrs ih =>
    obtain ⟨hkey, hkeys⟩ := List.forall_mem_cons.mp hkeys
    obtain ⟨hout, hnodup⟩ := List.nodup_cons.mp hnodup
    obtain ⟨hfresh, hnew⟩ := List.forall_mem_cons.mp hnew
    obtain ⟨position, after, hstep⟩ :=
      attributesFrom_attributeText hkey hfresh a.2 offset (attributesText attrs)
    have hseen : ∀ b ∈ attrs, ∀ r ∈ ⟨position, a.1.toList, escape a.2.toList⟩ :: seen,
        r.key ≠ b.1.toList := by
      intro b hb r hr hsame
      rcases List.mem_cons.mp hr with rfl | hr
      · have hkey : a.1 = b.1 := String.toList_inj.mp hsame
        exact hout (List.mem_map.mpr ⟨b, hb, hkey.symm⟩)
      · exact hnew b hb r hr hsame
    rw [ih hkeys hnodup hseen] at hstep
    exact hstep

/-! ### Keys -/

theorem key_fresh_of_readAttribute {seen : List RawAttribute} {c d : Cursor} {first : Char}
    {rest : List Char} {a : RawAttribute} (h : readAttribute seen c first rest = .ok (a, d)) :
    ∀ earlier ∈ seen, earlier.key ≠ a.key := by
  simp only [readAttribute] at h
  split at h
  · split at h
    · cases h
    · rename_i hfind
      split at h
      · cases h
      · cases h
        intro earlier hm
        simpa using List.find?_eq_none.mp hfind earlier hm
  · cases h

/-- No key is read twice, and none that was seen before. -/
theorem keys_of_attributesFrom {seen : List RawAttribute} {c : Cursor}
    {attrs : List (String × String)} (h : attributesFrom seen c = .ok attrs) :
    (attrs.map Prod.fst).Nodup ∧ ∀ earlier ∈ seen, .ofList earlier.key ∉ attrs.map Prod.fst := by
  fun_induction attributesFrom seen c generalizing attrs with
  | case1 =>
    cases h
    simp
  | case2 => cases h
  | case3 => cases h
  | case4 seen c d first rest hd a after ha hlt value hvalue =>
    rename_i ih
    cases hrest : attributesFrom (a :: seen) after with
    | error e =>
      rw [hrest] at h
      cases h
    | ok attrs =>
      rw [hrest] at h
      cases h
      obtain ⟨hnodup, hfresh⟩ := ih hrest
      have hkey := key_fresh_of_readAttribute ha
      refine ⟨List.nodup_cons.mpr ⟨hfresh a List.mem_cons_self, hnodup⟩, ?_⟩
      intro earlier hm
      have hne : String.ofList earlier.key ≠ .ofList a.key := by
        intro he
        exact hkey earlier hm (String.ofList_injective he)
      simp only [List.map_cons, List.mem_cons, not_or]
      exact ⟨hne, hfresh earlier (List.mem_cons_of_mem a hm)⟩

theorem Tag.keys_nodup {tag : Tag} {attrs : List (String × String)}
    (h : tag.attributes = .ok attrs) : (attrs.map Prod.fst).Nodup :=
  (keys_of_attributesFrom h).1

/-! ## Elements -/

def elementText (name : List Char) (attrs : List (String × String)) : List Char :=
  '<' :: name ++ attributesText attrs ++ ['/', '>']

/-- Looking for the end of a tag gets past the text `cs`. -/
def SplitsPast (cs : List Char) : Prop :=
  ∀ rest content after, splitTag none rest = some (content, after) →
    splitTag none (cs ++ rest) = some (cs ++ content, after)

theorem SplitsPast.append {as bs : List Char} (ha : SplitsPast as) (hb : SplitsPast bs) :
    SplitsPast (as ++ bs) := by
  intro rest content after h
  rw [List.append_assoc, List.append_assoc]
  exact ha _ _ _ (hb _ _ _ h)

theorem splitsPast_plain {cs : List Char} (h : ∀ c ∈ cs, c ≠ '>' ∧ c ≠ '"' ∧ c ≠ '\'') :
    SplitsPast cs := by
  intro rest content after hrest
  induction cs with
  | nil => exact hrest
  | cons c cs ih =>
    obtain ⟨⟨hend, hdouble, hsingle⟩, hcs⟩ := List.forall_mem_cons.mp h
    simp [splitTag, hend, hdouble, hsingle, ih hcs]

theorem splitTag_quoted {q : Char} {cs : List Char} (h : q ∉ cs) {rest content after : List Char}
    (hrest : splitTag none rest = some (content, after)) :
    splitTag (some q) (cs ++ q :: rest) = some (cs ++ q :: content, after) := by
  induction cs with
  | nil => simp [splitTag, hrest]
  | cons c cs ih =>
    have hc : c ≠ q := fun heq => h (heq ▸ List.mem_cons_self)
    have hcs : q ∉ cs := fun hq => h (List.mem_cons_of_mem c hq)
    simp [splitTag, hc, ih hcs]

theorem splitsPast_quoted {cs : List Char} (h : '"' ∉ cs) : SplitsPast ('"' :: cs ++ ['"']) := by
  intro rest content after hrest
  have hinner := splitTag_quoted h hrest
  simp [splitTag, hinner]

theorem splitsPast_word {cs : List Char} (h : IsWord cs) : SplitsPast cs := by
  refine splitsPast_plain fun c hc => ?_
  have hc := h.2 c hc
  exact ⟨ne_of_isAlphanum hc (by decide), ne_of_isAlphanum hc (by decide),
    ne_of_isAlphanum hc (by decide)⟩

theorem splitsPast_attributesText {attrs : List (String × String)}
    (h : ∀ a ∈ attrs, IsWord a.1.toList) : SplitsPast (attributesText attrs) := by
  induction attrs with
  | nil => exact fun _ _ _ hrest => hrest
  | cons a attrs ih =>
    obtain ⟨hkey, hkeys⟩ := List.forall_mem_cons.mp h
    have hspace : SplitsPast [' '] := splitsPast_plain (by simp)
    have hequals : SplitsPast ['='] := splitsPast_plain (by simp)
    have hquoted := splitsPast_quoted (quote_not_mem_escape a.2.toList)
    have hfirst : attributeText a =
        [' '] ++ a.1.toList ++ ['='] ++ ('"' :: escape a.2.toList ++ ['"']) := by
      simp [attributeText]
    rw [attributesText, List.flatMap_cons, hfirst]
    exact (((hspace.append (splitsPast_word hkey)).append hequals).append hquoted).append (ih hkeys)

/-- An element is one piece of markup. -/
theorem piece_element {name : List Char} {attrs : List (String × String)} (hname : IsWord name)
    (hkeys : ∀ a ∈ attrs, IsWord a.1.toList) (rest : List Char) :
    piece (name ++ attributesText attrs ++ '/' :: '>' :: rest) =
      .ok (.tag (name ++ attributesText attrs ++ ['/']), rest) := by
  have hend : splitTag none ('/' :: '>' :: rest) = some (['/'], rest) := by simp [splitTag]
  have hsplit := (splitsPast_word hname).append (splitsPast_attributesText hkeys) _ _ _ hend
  obtain ⟨first, more, rfl⟩ := List.exists_cons_of_ne_nil hname.1
  have hfirst := hname.2 first List.mem_cons_self
  have hother : ∀ d : Char, d.isAlphanum = false → ∀ tail,
      first :: more ++ attributesText attrs ++ '/' :: '>' :: rest ≠ d :: tail :=
    fun d hd tail heq => ne_of_isAlphanum hfirst hd (List.cons.inj heq).1
  unfold piece
  split
  · rename_i heq
    exact absurd heq (hother '!' (by decide) _)
  · rename_i heq
    exact absurd heq (hother '?' (by decide) _)
  · rename_i heq
    exact absurd heq (hother '/' (by decide) _)
  · rw [hsplit]
    rfl

/-- A whole element in front of a text is one event. -/
theorem readFrom_element {name : List Char} {attrs : List (String × String)} (hname : IsWord name)
    (hkeys : ∀ a ∈ attrs, IsWord a.1.toList) (opened : List (List Char)) (rest : List Char) :
    readFrom opened (elementText name attrs ++ rest) =
      (readFrom opened rest).cons (.empty ⟨name, attributesText attrs⟩) := by
  have htext : elementText name attrs ++ rest =
      '<' :: (name ++ attributesText attrs ++ '/' :: '>' :: rest) := by
    simp [elementText]
  have hpiece := piece_element hname hkeys rest
  have htag : openElement opened (name ++ attributesText attrs ++ ['/']) =
      (.empty (.ofContent (name ++ attributesText attrs)), opened) := by
    rw [openElement, beforeTail?_eq_some_iff.mpr rfl]
  have hcontent : Tag.ofContent (name ++ attributesText attrs) = ⟨name, attributesText attrs⟩ := by
    have hin : ∀ c ∈ name, (!isSpace c) = true := by
      intro c hc
      simpa using isSpace_of_isAlphanum (hname.2 c hc)
    have hstops : Stops (!isSpace ·) (attributesText attrs) := by
      cases attrs with
      | nil => exact stops_nil
      | cons a attrs => exact stops_cons.mpr (by decide)
    rw [Tag.ofContent, takeWhile_append_stops hin hstops, dropWhile_append_stops hin hstops]
  rw [htext, readFrom]
  simp only [if_true]
  split
  · rename_i herror
    rw [hpiece] at herror
    cases herror
  · rename_i hok
    rw [hpiece] at hok
    cases hok
    simp only [htag, hcontent]

/-- The mark in front of a document is no markup, so passing over it makes no difference. -/
theorem read_eq_readFrom (source : String) : read source = readFrom [] source.toList := by
  unfold read
  cases source.toList with
  | nil => rw [readFrom]
  | cons c rest =>
    by_cases hmark : c = byteOrderMark
    · subst hmark
      have hopen : byteOrderMark ≠ '<' := by decide
      have hreference : byteOrderMark ≠ '&' := by decide
      rw [readFrom]
      simp only [hopen, hreference, if_true, if_false]
    · simp only [hmark, if_false]

def writtenTag (name : List Char) (attrs : List (String × String)) : Tag :=
  ⟨name, attributesText attrs⟩

/-- A whole element in front of a document is read as one event before those of the document, with
    the attributes that were written. -/
theorem read_element {name : List Char} {attrs : List (String × String)} (hname : IsWord name)
    (hkeys : ∀ a ∈ attrs, IsWord a.1.toList) (hnodup : (attrs.map (·.1)).Nodup)
    (source : String) :
    read (.ofList (elementText name attrs) ++ source) =
        (read source).cons (.empty (writtenTag name attrs)) ∧
      (writtenTag name attrs).attributes = .ok attrs := by
  constructor
  · rw [read_eq_readFrom, read_eq_readFrom, String.toList_append, String.toList_ofList]
    exact readFrom_element hname hkeys [] source.toList
  · exact attributesFrom_written hkeys hnodup (by simp) _

end SvgDraw.Markup
