import Komari.MessageSender.Digest
import Komari.Rewrite.Replace
import Mathlib.Data.List.Perm.Basic

/-!
# Templates of notices

The placeholders of a template are replaced one after the other, in the order in which a map is enumerated.

* `singlePass_iff` : when this is a single pass, in every order.
-/

namespace Komari

namespace MessageSender

open TrafficReset (trimSpace)
open Rewrite

/-- The keys of `replaceMap`. -/
inductive Placeholder
  | event
  /-- The names of the clients. -/
  | client
  | time
  | message
  | emoji
deriving DecidableEq

/-- What a template is made of. -/
inductive Token
  | letter (c : Char)
  | placeholder (p : Placeholder)
deriving DecidableEq

/-- All keys of `replaceMap`. -/
def Placeholder.all : List Placeholder := [.event, .client, .time, .message, .emoji]

/-- How it is written. -/
def Placeholder.text : Placeholder → List Char
  | .event => "\x7b\x7bevent\x7d\x7d".toList
  | .client => "\x7b\x7bclient\x7d\x7d".toList
  | .time => "\x7b\x7btime\x7d\x7d".toList
  | .message => "\x7b\x7bmessage\x7d\x7d".toList
  | .emoji => "\x7b\x7bemoji\x7d\x7d".toList

variable {δ : Type}

/-- `clientNames`: names, with the `UUID` where a name is blank. -/
def clientNames (clients : List (Client δ)) : List String :=
  clients.map fun c => if trimSpace c.name = "" then c.uuid else c.name

/-- `replaceMap`, with the text of a time. -/
def replaceMap (format : ℤ → String) (event : EventMessage δ) : Placeholder → String
  | .event => event.event
  | .client => ", ".intercalate (clientNames event.clients)
  | .time => format event.time
  | .message => event.message
  | .emoji => event.emoji

/-- The loop of `parseTemplate`, over the placeholders in the order in which they are enumerated. -/
def parseTemplate (format : ℤ → String) (order : List Placeholder) (messageTemplate : List Char)
    (event : EventMessage δ) : List Char :=
  order.foldl (fun result p => replaceAll p.text (replaceMap format event p).toList result) messageTemplate

/-! ### Tokens -/

/-- The letters and placeholders of a template, after a number of letters that are skipped. -/
def tokensFrom : ℕ → List Char → List Token
  | _, [] => []
  | skip + 1, _ :: s => tokensFrom skip s
  | 0, c :: s =>
    match Placeholder.all.find? fun p => p.text.isPrefixOf (c :: s) with
    | some p => .placeholder p :: tokensFrom (p.text.length - 1) s
    | none => .letter c :: tokensFrom 0 s

/-- The letters and placeholders of a template. -/
def tokens (messageTemplate : List Char) : List Token := tokensFrom 0 messageTemplate

/-- What stands for a token, when the placeholders of a list are replaced. -/
def piece (values : Placeholder → String) (done : List Placeholder) : Token → List Char
  | .letter c => [c]
  | .placeholder p => if p ∈ done then (values p).toList else p.text

/-- A template with the values of the placeholders of a list, put in at once. -/
def render (values : Placeholder → String) (done : List Placeholder) (toks : List Token) :
    List Char :=
  toks.flatMap (piece values done)

/-- The placeholders of the template are replaced in a single pass. -/
structure SinglePass (format : ℤ → String) (messageTemplate : List Char) (event : EventMessage δ) : Prop where
  /-- In every order the placeholders of the template are replaced, at once. -/
  simultaneous : ∀ order, order.Perm Placeholder.all →
    parseTemplate format order messageTemplate event =
      render (replaceMap format event) Placeholder.all (tokens messageTemplate)
  /-- On the way nothing but the placeholders of the template is replaced: no value is scanned again. -/
  notRescanned : ∀ done rest, (done ++ rest).Perm Placeholder.all →
    parseTemplate format done messageTemplate event =
      render (replaceMap format event) done (tokens messageTemplate)

/-- With the values of the other placeholders, the template has no more occurrences of a placeholder, or the
placeholder is its own value. -/
def Unmixed (format : ℤ → String) (messageTemplate : List Char) (event : EventMessage δ) : Prop :=
  ∀ p, (replaceMap format event p).toList = p.text ∨
    occurrences p.text (render (replaceMap format event) (Placeholder.all.erase p) (tokens messageTemplate)) =
      (tokens messageTemplate).count (.placeholder p)

/-! ### The texts of the placeholders -/

theorem Placeholder.mem_all (p : Placeholder) : p ∈ Placeholder.all := by
  cases p <;> simp [Placeholder.all]

theorem Placeholder.unbordered (p : Placeholder) : Unbordered p.text := by
  have hall : ∀ p ∈ Placeholder.all, p.text ≠ [] ∧
      ∀ n < p.text.length, 0 < n → ¬p.text.drop n <+: p.text := by decide +kernel
  obtain ⟨hne, hdrop⟩ := hall p p.mem_all
  exact ⟨hne, fun n hpos hlt => hdrop n hlt hpos⟩

variable {p : Placeholder}

theorem Placeholder.apart {q : Placeholder} (h : p ≠ q) : Apart p.text q.text := by
  have hall : ∀ p ∈ Placeholder.all, ∀ q ∈ Placeholder.all, p ≠ q →
      ∀ n < q.text.length, ¬q.text.drop n <+: p.text ∧ ¬p.text <+: q.text.drop n := by decide +kernel
  exact hall p p.mem_all q q.mem_all h

/-- The tokens of a template make up the template. -/
theorem render_tokensFrom (values : Placeholder → String) (skip : ℕ) (s : List Char) :
    render values [] (tokensFrom skip s) = s.drop skip := by
  induction s generalizing skip with
  | nil => simp [tokensFrom, render]
  | cons c s ih =>
    cases skip with
    | succ skip => rw [tokensFrom, ih, List.drop_succ_cons]
    | zero =>
      rw [tokensFrom]
      split
      case h_1 p hfind =>
        have hocc := List.find?_some hfind
        rw [List.isPrefixOf_iff_prefix] at hocc
        obtain ⟨rest, hrest⟩ := hocc
        have hpos := List.length_pos_iff.mpr p.unbordered.ne_nil
        have hdrop : s.drop (p.text.length - 1) = rest := by
          have hcons : (c :: s).drop p.text.length = rest := by rw [← hrest, List.drop_left]
          obtain ⟨n, hn⟩ := Nat.exists_eq_succ_of_ne_zero hpos.ne'
          rw [hn, Nat.succ_eq_add_one, List.drop_succ_cons] at hcons
          rw [hn, Nat.succ_eq_add_one, Nat.add_sub_cancel]
          exact hcons
        have hpiece : piece values [] (.placeholder p) = p.text := by simp [piece]
        rw [render, List.flatMap_cons, hpiece]
        exact (congrArg (p.text ++ ·) ((ih _).trans hdrop)).trans hrest
      case h_2 =>
        exact congrArg (c :: ·) (ih 0)

theorem render_tokens (values : Placeholder → String) (s : List Char) : render values [] (tokens s) = s :=
  render_tokensFrom values 0 s

variable {values : Placeholder → String}

variable {done : List Placeholder}

theorem render_congr {done' : List Placeholder} (h : ∀ p, p ∈ done ↔ p ∈ done')
    (toks : List Token) : render values done toks = render values done' toks := by
  have hpiece : piece values done = piece values done' := by
    funext x
    cases x with
    | letter c => rfl
    | placeholder p => simp only [piece, h]
  rw [render, render, hpiece]

/-! ### One placeholder -/

/-- The text with the places of one placeholder as marks. -/
def marks (values : Placeholder → String) (done : List Placeholder) (p : Placeholder)
    (toks : List Token) : List (Option Char) :=
  toks.flatMap fun x => if x = .placeholder p then [none] else (piece values done x).map some

theorem marks_self_cons (done : List Placeholder) (p : Placeholder) (toks : List Token) :
    marks values done p (.placeholder p :: toks) = none :: marks values done p toks := by
  rw [marks, List.flatMap_cons, if_pos rfl]
  rfl

theorem marks_cons (done : List Placeholder) {x : Token} (h : x ≠ .placeholder p)
    (toks : List Token) :
    marks values done p (x :: toks) = (piece values done x).map some ++ marks values done p toks := by
  rw [marks, List.flatMap_cons, if_neg h]
  rfl

theorem flat_marks (done : List Placeholder) (p : Placeholder) (hnot : p ∉ done)
    (toks : List Token) :
    flat p.text (marks values done p toks) = render values done toks := by
  induction toks with
  | nil => rfl
  | cons x toks ih =>
    rw [render, List.flatMap_cons]
    by_cases h : x = .placeholder p
    · rw [h, marks_self_cons, flat_none, ih, piece, if_neg hnot]
      rfl
    · rw [marks_cons done h, flat_map_some_append, ih]
      rfl

theorem flat_marks_insert (done : List Placeholder) (p : Placeholder) (toks : List Token) :
    flat (values p).toList (marks values done p toks) = render values (p :: done) toks := by
  induction toks with
  | nil => rfl
  | cons x toks ih =>
    rw [render, List.flatMap_cons]
    by_cases h : x = .placeholder p
    · rw [h, marks_self_cons, flat_none, ih, piece, if_pos List.mem_cons_self]
      rfl
    · have hpiece : piece values (p :: done) x = piece values done x := by
        cases x with
        | letter c => rfl
        | placeholder q =>
          have hne : q ≠ p := fun heq => h (congrArg Token.placeholder heq)
          simp [piece, hne]
      rw [marks_cons done h, flat_map_some_append, ih, hpiece]
      rfl

theorem count_marks (done : List Placeholder) (p : Placeholder) (toks : List Token) :
    (marks values done p toks).count none = toks.count (.placeholder p) := by
  induction toks with
  | nil => rfl
  | cons x toks ih =>
    by_cases h : x = .placeholder p
    · rw [h, marks_self_cons, List.count_cons_self, List.count_cons_self, ih]
    · have hnone : ((piece values done x).map some).count (none : Option Char) = 0 := by
        rw [List.count_eq_zero]
        simp
      rw [marks_cons done h, List.count_append, hnone, Nat.zero_add, ih, List.count_cons_of_ne h]

/-- One placeholder is replaced at its own places exactly if it has no others, or is its own value. -/
theorem replaceAll_render_iff (hnot : p ∉ done) (toks : List Token) :
    replaceAll p.text (values p).toList (render values done toks) = render values (p :: done) toks ↔
      (values p).toList = p.text ∨ occurrences p.text (render values done toks) = toks.count (.placeholder p) := by
  rw [← flat_marks done p hnot, ← flat_marks_insert, ← count_marks done p toks]
  exact replaceAll_flat_iff p.unbordered _

theorem count_le_occurrences_render (hnot : p ∉ done)
    (toks : List Token) : toks.count (.placeholder p) ≤ occurrences p.text (render values done toks) := by
  rw [← flat_marks done p hnot, ← @count_marks values done p toks]
  exact count_le_occurrences p.unbordered _

/-- More values leave the occurrences of a placeholder, and may add others. -/
theorem occurrences_render_le {q : Placeholder} (hne : p ≠ q) (toks : List Token) :
    occurrences p.text (render values done toks) ≤ occurrences p.text (render values (q :: done) toks) := by
  by_cases hmem : q ∈ done
  · have hiff : ∀ r, r ∈ done ↔ r ∈ q :: done := by
      intro r
      rw [List.mem_cons]
      exact ⟨.inr, fun h => h.elim (fun heq => heq ▸ hmem) id⟩
    rw [render_congr hiff]
  · rw [← flat_marks done q hmem, ← flat_marks_insert]
    exact occurrences_flat_le p.unbordered.ne_nil (Placeholder.apart hne) (Placeholder.apart hne.symm) _

theorem occurrences_render_append_le (more : List Placeholder)
    (hnot : p ∉ more) (toks : List Token) :
    occurrences p.text (render values done toks) ≤ occurrences p.text (render values (more ++ done) toks) := by
  induction more with
  | nil => exact le_rfl
  | cons q more ih =>
    rw [List.mem_cons, not_or] at hnot
    exact (ih hnot.2).trans (occurrences_render_le hnot.1 toks)

/-! ### All placeholders -/

theorem Placeholder.mem_erase (p q : Placeholder) : q ∈ Placeholder.all.erase p ↔ q ≠ p := by
  cases p <;> cases q <;> decide

theorem Placeholder.perm_erase (p : Placeholder) : (Placeholder.all.erase p ++ [p]).Perm Placeholder.all := by
  refine (List.perm_append_singleton p _).trans ?_
  exact (List.perm_cons_erase p.mem_all).symm

variable {format : ℤ → String} {messageTemplate : List Char} {event : EventMessage δ}

theorem parseTemplate_append_singleton (done : List Placeholder) (p : Placeholder) :
    parseTemplate format (done ++ [p]) messageTemplate event =
      replaceAll p.text (replaceMap format event p).toList (parseTemplate format done messageTemplate event) := by
  rw [parseTemplate, List.foldl_append]
  rfl

theorem render_append_singleton (done : List Placeholder) (p : Placeholder) (toks : List Token) :
    render values (done ++ [p]) toks = render values (p :: done) toks := by
  refine render_congr (fun q => ?_) toks
  rw [List.mem_append, List.mem_singleton, List.mem_cons, or_comm]

/-- One placeholder after the other, the template is rendered. -/
theorem parseTemplate_eq_render (h : Unmixed format messageTemplate event) (hnodup : done.Nodup) :
    parseTemplate format done messageTemplate event =
      render (replaceMap format event) done (tokens messageTemplate) := by
  induction done using List.reverseRecOn with
  | nil => exact (render_tokens _ _).symm
  | append_singleton done p ih =>
    have hnot : p ∉ done := by
      intro hmem
      exact (List.nodup_append.mp hnodup).2.2 p hmem p (List.mem_singleton_self p) rfl
    rw [parseTemplate_append_singleton, ih (List.nodup_append.mp hnodup).1, render_append_singleton,
      replaceAll_render_iff hnot]
    refine (h p).imp_right fun hcount => le_antisymm ?_ (count_le_occurrences_render hnot _)
    have hpart : p ∉ Placeholder.all.erase p := fun hmem => (p.mem_erase p).mp hmem rfl
    have hle := @occurrences_render_append_le p (replaceMap format event) done (Placeholder.all.erase p) hpart
      (tokens messageTemplate)
    have hiff : ∀ q, q ∈ Placeholder.all.erase p ++ done ↔ q ∈ Placeholder.all.erase p := by
      intro q
      rw [List.mem_append, p.mem_erase]
      exact ⟨fun hq => hq.elim id fun hmem heq => hnot (heq ▸ hmem), .inl⟩
    rwa [render_congr hiff, hcount] at hle

/-- **Templates are rendered in a single pass exactly if** no value, alone or together with the template and
other values, brings in the text of a placeholder, except for placeholders that are their own values. -/
theorem singlePass_iff (format : ℤ → String) (messageTemplate : List Char) (event : EventMessage δ) :
    SinglePass format messageTemplate event ↔ Unmixed format messageTemplate event := by
  constructor
  · intro h p
    have hpart : p ∉ Placeholder.all.erase p := fun hmem => (p.mem_erase p).mp hmem rfl
    have hfst := h.notRescanned _ _ p.perm_erase
    have hsnd := h.notRescanned (Placeholder.all.erase p ++ [p]) [] (by rw [List.append_nil]; exact p.perm_erase)
    rw [parseTemplate_append_singleton, hfst, render_append_singleton] at hsnd
    exact (replaceAll_render_iff hpart _).mp hsnd
  · intro h
    have hall : Placeholder.all.Nodup := by decide
    have hdone : ∀ done rest, (done ++ rest).Perm Placeholder.all →
        parseTemplate format done messageTemplate event =
          render (replaceMap format event) done (tokens messageTemplate) := fun done rest hperm =>
      parseTemplate_eq_render h (List.nodup_append.mp (hperm.nodup_iff.mpr hall)).1
    refine ⟨fun order hperm => ?_, hdone⟩
    rw [hdone order [] (by rw [List.append_nil]; exact hperm)]
    exact render_congr (fun p => hperm.mem_iff) _

/-- A message that has the placeholder of the clients in it. -/
def borrowed : EventMessage ℕ where
  kind := "alert"
  event := "Alert"
  message := "\x7b\x7bclient\x7d\x7d"
  emoji := "!"
  clients := [⟨"u1", "ada", 0⟩]
  time := 0

/-- Whether it is replaced depends on the order in which the map is enumerated. -/
theorem parseTemplate_borrowed :
    parseTemplate (fun _ => "1970-01-01T00:00:00Z") [.event, .client, .time, .message, .emoji]
        "\x7b\x7bmessage\x7d\x7d".toList borrowed = "\x7b\x7bclient\x7d\x7d".toList ∧
      parseTemplate (fun _ => "1970-01-01T00:00:00Z") [.message, .event, .client, .time, .emoji]
        "\x7b\x7bmessage\x7d\x7d".toList borrowed = "ada".toList ∧
      ¬SinglePass (fun _ => "1970-01-01T00:00:00Z") "\x7b\x7bmessage\x7d\x7d".toList borrowed := by
  have hfst : parseTemplate (fun _ => "1970-01-01T00:00:00Z") [.event, .client, .time, .message, .emoji]
      "\x7b\x7bmessage\x7d\x7d".toList borrowed = "\x7b\x7bclient\x7d\x7d".toList := by decide +kernel
  have hsnd : parseTemplate (fun _ => "1970-01-01T00:00:00Z") [.message, .event, .client, .time, .emoji]
      "\x7b\x7bmessage\x7d\x7d".toList borrowed = "ada".toList := by decide +kernel
  refine ⟨hfst, hsnd, fun h => ?_⟩
  have horder := h.simultaneous [.event, .client, .time, .message, .emoji] (by decide)
  have hother := h.simultaneous [.message, .event, .client, .time, .emoji] (by decide)
  rw [← hother, hfst, hsnd] at horder
  exact absurd horder (by decide +kernel)

end MessageSender

end Komari
