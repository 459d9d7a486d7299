import Komari.Utf8.Lower

/-!
# HTML fragments of plugins

The fragments of all plugins are put into an HTML response: the head fragments before the end of its head,
the body fragments before the end of its body. Both places are looked for in the lower-cased text, and the
text itself is cut there.

* `insertsOnly_iff` : the fragments come to stand before the tags exactly if lower case keeps the lengths of
  what is before them, or the difference does not show.
-/

namespace Komari

namespace Inject

open Occurs (index insertAt between)
open Utf8 (bytes foldByte toLower)

/-! ### The source -/

/-- What a plugin adds to pages. -/
structure InjectEntry where
  short : List UInt8
  head : List UInt8
  body : List UInt8

/-- The end of the head. -/
def headTag : List UInt8 := bytes "</head>"
/-- The end of the body. -/
def bodyTag : List UInt8 := bytes "</body>"
/-- The end of the document. -/
def htmlTag : List UInt8 := bytes "</html>"

/-- Where a tag is in the lower-cased text. -/
def indexFold (text needle : List UInt8) : Option ℕ := index needle (toLower text)

/-- `text[:idx] + html + text[idx:]`, which panics if the index is beyond the text. -/
def splice (text : List UInt8) (idx : ℕ) (html : List UInt8) : Option (List UInt8) :=
  if idx ≤ text.length then some (text.take idx ++ html ++ text.drop idx) else none

/-- Before the end of the head. -/
def injectHead (text headHTML : List UInt8) : Option (List UInt8) :=
  if headHTML ≠ [] then
    match indexFold text headTag with
    | some idx => splice text idx headHTML
    | none => some (headHTML ++ text)
  else some text

/-- Before the end of the body. -/
def injectTail (text tailHTML : List UInt8) : Option (List UInt8) :=
  if tailHTML ≠ [] then
    match indexFold text bodyTag with
    | some idx => splice text idx tailHTML
    | none =>
      match indexFold text htmlTag with
      | some idx => splice text idx tailHTML
      | none => some (text ++ tailHTML)
  else some text

/-- All that goes into the head. -/
def headHTML (fragments : List InjectEntry) : List UInt8 := fragments.flatMap (·.head)

/-- All that goes into the body. -/
def tailHTML (fragments : List InjectEntry) : List UInt8 := fragments.flatMap (·.body)

/-- The source's function, without a result where a slice panics. -/
def injectHTMLContent (body : List UInt8) (fragments : List InjectEntry) : Option (List UInt8) :=
  if fragments.length = 0 then some body
  else if (headHTML fragments).length = 0 ∧ (tailHTML fragments).length = 0 then some body
  else (injectHead body (headHTML fragments)).bind fun text => injectTail text (tailHTML fragments)

theorem injectHTMLContent_eq (body : List UInt8) (fragments : List InjectEntry) :
    injectHTMLContent body fragments =
      (injectHead body (headHTML fragments)).bind fun text => injectTail text (tailHTML fragments) := by
  have hempty : headHTML fragments = [] → tailHTML fragments = [] →
      (injectHead body (headHTML fragments)).bind (fun text => injectTail text (tailHTML fragments)) =
        some body := by
    intro hhead htail
    simp [injectHead, injectTail, hhead, htail]
  rw [injectHTMLContent]
  split_ifs with hnil hnone
  · rw [List.length_eq_zero_iff] at hnil
    exact (hempty (by simp [headHTML, hnil]) (by simp [tailHTML, hnil])).symm
  · simp only [List.length_eq_zero_iff] at hnone
    exact (hempty hnone.1 hnone.2).symm
  · rfl

/-! ### Where the fragments belong -/

/-- The first occurrence of a tag, in whatever case. -/
def place (text tag : List UInt8) : Option ℕ := index tag (text.map foldByte)

/-- A document with the head text before the end of the head, or at the very beginning. -/
def withHead (text html : List UInt8) : List UInt8 := insertAt ((place text headTag).getD 0) html text

/-- The place of the body text, if there is a tag for it. -/
def tailPlace (text : List UInt8) : Option ℕ := (place text bodyTag).or (place text htmlTag)

/-- A document with the body text before the end of the body, else of the document, else behind it. -/
def withTail (text html : List UInt8) : List UInt8 := insertAt ((tailPlace text).getD text.length) html text

/-- The head text and the body text, and nothing else, are inserted where they belong; the body text in the
document that has the head text already. -/
structure InsertsOnly (body : List UInt8) (fragments : List InjectEntry) : Prop where
  head : injectHead body (headHTML fragments) = some (withHead body (headHTML fragments))
  content : injectHTMLContent body fragments =
    some (withTail (withHead body (headHTML fragments)) (tailHTML fragments))

/-- The place before a tag is found: lower case keeps the length of the text before it, or what is inserted
commutes with what is between the place that is found and the tag. -/
def Keeps (text : List UInt8) (i : ℕ) (html : List UInt8) : Prop :=
  (toLower (text.take i)).length ≤ text.length ∧
    html ++ between (toLower (text.take i)).length i text = between (toLower (text.take i)).length i text ++ html

/-- There is a place for the fragments. -/
structure Fits (body : List UInt8) (fragments : List InjectEntry) : Prop where
  head : headHTML fragments ≠ [] → ∀ i, place body headTag = some i → Keeps body i (headHTML fragments)
  tail : tailHTML fragments ≠ [] → ∀ i, tailPlace (withHead body (headHTML fragments)) = some i →
    Keeps (withHead body (headHTML fragments)) i (tailHTML fragments)

/-! ### The places that are found -/

theorem indexFold_eq {tag : List UInt8} (hne : tag ≠ []) (htag : ∀ b ∈ tag, Utf8.Plain b)
    (text : List UInt8) :
    indexFold text tag = (place text tag).map fun i => (toLower (text.take i)).length :=
  Utf8.index_toLower hne htag text

theorem indexFold_headTag (text : List UInt8) :
    indexFold text headTag = (place text headTag).map fun i => (toLower (text.take i)).length :=
  indexFold_eq (by decide +kernel) (by decide +kernel) text

theorem indexFold_bodyTag (text : List UInt8) :
    indexFold text bodyTag = (place text bodyTag).map fun i => (toLower (text.take i)).length :=
  indexFold_eq (by decide +kernel) (by decide +kernel) text

theorem indexFold_htmlTag (text : List UInt8) :
    indexFold text htmlTag = (place text htmlTag).map fun i => (toLower (text.take i)).length :=
  indexFold_eq (by decide +kernel) (by decide +kernel) text

@[simp] theorem insertAt_nil (i : ℕ) (text : List UInt8) : insertAt i [] text = text := by
  simp [insertAt]

/-- A text is cut at the right place, or nobody sees the difference. -/
theorem splice_eq_iff (text : List UInt8) (i : ℕ) (html : List UInt8) :
    splice text (toLower (text.take i)).length html = some (insertAt i html text) ↔ Keeps text i html := by
  rw [splice, Keeps]
  split_ifs with hle
  · rw [Option.some_inj]
    exact (Occurs.insertAt_eq_iff _ i html text).trans (and_iff_right hle).symm
  · simp [hle]

theorem injectHead_eq_iff (text html : List UInt8) :
    injectHead text html = some (withHead text html) ↔
      (html ≠ [] → ∀ i, place text headTag = some i → Keeps text i html) := by
  rw [injectHead]
  by_cases hne : html = []
  · simp [hne, withHead]
  · rw [if_pos hne, indexFold_headTag, withHead]
    cases h : place text headTag with
    | none => simp [insertAt]
    | some i => simp [hne, splice_eq_iff]

theorem injectTail_eq_iff (text html : List UInt8) :
    injectTail text html = some (withTail text html) ↔
      (html ≠ [] → ∀ i, tailPlace text = some i → Keeps text i html) := by
  rw [injectTail]
  by_cases hne : html = []
  · simp [hne, withTail]
  · rw [if_pos hne, indexFold_bodyTag, indexFold_htmlTag, withTail, tailPlace]
    cases h : place text bodyTag with
    | some i => simp [hne, splice_eq_iff]
    | none =>
      cases h' : place text htmlTag with
      | some i => simp [hne, splice_eq_iff]
      | none => simp [insertAt]

/-- After the head text, the body text is inserted into what it should be. -/
theorem injectHTMLContent_of_head {body : List UInt8} {fragments : List InjectEntry}
    (h : injectHead body (headHTML fragments) = some (withHead body (headHTML fragments))) :
    injectHTMLContent body fragments =
      injectTail (withHead body (headHTML fragments)) (tailHTML fragments) := by
  rw [injectHTMLContent_eq, h]
  rfl

theorem insertsOnly_of_fits {body : List UInt8} {fragments : List InjectEntry} (h : Fits body fragments) :
    InsertsOnly body fragments := by
  have hhead := (injectHead_eq_iff _ _).mpr h.head
  refine ⟨hhead, ?_⟩
  rw [injectHTMLContent_of_head hhead]
  exact (injectTail_eq_iff _ _).mpr h.tail

/-- **The fragments are inserted where they belong, and nothing else changes, exactly if both places are
found.** -/
theorem insertsOnly_iff (body : List UInt8) (fragments : List InjectEntry) :
    InsertsOnly body fragments ↔ Fits body fragments := by
  constructor
  · rintro ⟨hhead, htail⟩
    rw [injectHTMLContent_of_head hhead] at htail
    exact ⟨(injectHead_eq_iff _ _).mp hhead, (injectTail_eq_iff _ _).mp htail⟩
  · exact insertsOnly_of_fits

/-- Four bytes that are no characters, and the end of the head. -/
def strayHead : List UInt8 := [0xff, 0xff, 0xff, 0xff] ++ headTag

/-- The slice panics: lower case has three bytes for each of the four. -/
theorem not_insertsOnly_strayHead : ¬InsertsOnly strayHead [⟨[], bytes "x", []⟩] := by
  rintro ⟨-, h⟩
  have hpanic : injectHTMLContent strayHead [⟨[], bytes "x", []⟩] = none := by decide +kernel
  rw [hpanic] at h
  cases h

end Inject

end Komari
