import Komari.TrafficReset.Schedule
import Mathlib.Data.Int.Notation
import Mathlib.Data.List.Sublists

/-!
# Digests of notices

Notices with the same kind, texts and emoji are put together: a batch has the clients of all of them, each
client once.
-/

namespace Komari

namespace MessageSender

open TrafficReset (trimSpace)

/-- `models.Client`: what identifies it, and the other fields. -/
structure Client (δ : Type) where
  uuid : String
  name : String
  data : δ

/-- `models.EventMessage`. -/
structure EventMessage (δ : Type) where
  kind : String
  event : String
  message : String
  emoji : String
  clients : List (Client δ)
  time : ℤ

variable {δ : Type}

/-- Events with one key share a batch. -/
def digestKey (event : EventMessage δ) : String :=
  event.kind ++ "\u0000" ++ event.event ++ "\u0000" ++ event.message ++ "\u0000" ++ event.emoji

/-- The text under which a client is seen: its `UUID`, or its name. -/
def Client.text (client : Client δ) : String :=
  if trimSpace client.uuid = "" then trimSpace client.name else trimSpace client.uuid

/-- Who a client is. -/
inductive Identity
  /-- It has a `UUID`. -/
  | uuid (id : String)
  /-- It has only a name. -/
  | name (id : String)
deriving DecidableEq

/-- The identity of a client, if it has one. -/
def Client.identity (client : Client δ) : Option Identity :=
  if trimSpace client.uuid ≠ "" then some (.uuid (trimSpace client.uuid))
  else if trimSpace client.name ≠ "" then some (.name (trimSpace client.name))
  else none

/-- `digestBatch`, with its place in memory, its key, and the events that were put into it. -/
structure Batch (δ : Type) where
  id : ℕ
  key : String
  event : EventMessage δ
  seen : List String
  /-- `stop` is set. -/
  stop : Bool
  /-- The events that were put into it. -/
  parts : List (EventMessage δ)

/-- One client, after those that were seen. -/
def mergeClient (merged : List String × List (Client δ)) (client : Client δ) :
    List String × List (Client δ) :=
  if client.text = "" then (merged.1, merged.2 ++ [client])
  else if merged.1.contains client.text then merged
  else (client.text :: merged.1, merged.2 ++ [client])

/-- Adds the clients whose texts were not seen. -/
def mergeDigestClients (seen : List String) (clients new : List (Client δ)) :
    List String × List (Client δ) :=
  new.foldl mergeClient (seen, clients)

/-- A batch for an event, without clients. -/
def Batch.new (id : ℕ) (event : EventMessage δ) : Batch δ :=
  ⟨id, digestKey event, { event with clients := [] }, [], false, []⟩

/-- An event is put into a batch. -/
def Batch.merge (b : Batch δ) (event : EventMessage δ) : Batch δ :=
  let (seen, clients) := mergeDigestClients b.seen b.event.clients event.clients
  { b with
    event := { b.event with clients := clients, time := max b.event.time event.time }
    seen := seen
    parts := b.parts ++ [event] }

/-- Two events have the same kind, texts and emoji. -/
def EventMessage.Alike (e e' : EventMessage δ) : Prop :=
  e.kind = e'.kind ∧ e.event = e'.event ∧ e.message = e'.message ∧ e.emoji = e'.emoji

/-- The clients of its events. -/
def Batch.enqueued (b : Batch δ) : List (Client δ) := b.parts.flatMap EventMessage.clients

/-- A batch says what its events say, and names their clients once, in their order. -/
structure Batch.Faithful (b : Batch δ) : Prop where
  /-- It has the kind, the texts and the emoji of all its events. -/
  alike : ∀ e ∈ b.parts, e.Alike b.event
  /-- Its clients are in the order of the events. -/
  order : b.event.clients.Sublist b.enqueued
  distinct : b.event.clients.Pairwise fun c c' => c.identity ≠ none → c.identity ≠ c'.identity
  texts : b.event.clients.Pairwise fun c c' => c.text ≠ "" → c.text ≠ c'.text
  /-- A client is there as it was first enqueued. -/
  first : ∀ identity, (b.event.clients.find? fun c => c.identity = some identity) =
    b.enqueued.find? fun c => c.identity = some identity

/-- The texts of the clients that are there and come say who they are. -/
def Recognized (clients : List (Client δ)) : Prop :=
  ∀ c ∈ clients, ∀ c' ∈ clients, c.text ≠ "" → c.text = c'.text → c.identity = c'.identity

/-! ### Identities -/

theorem Client.text_eq_empty_iff (c : Client δ) : c.text = "" ↔ c.identity = none := by
  unfold text identity
  by_cases huuid : trimSpace c.uuid = ""
  · by_cases hname : trimSpace c.name = "" <;> simp [huuid, hname]
  · simp [huuid]

/-- The text of a client. -/
def Identity.text : Identity → String
  | .uuid id => id
  | .name id => id

theorem Client.text_eq (c : Client δ) : c.text = (c.identity.map Identity.text).getD "" := by
  unfold text identity
  by_cases huuid : trimSpace c.uuid = ""
  · by_cases hname : trimSpace c.name = "" <;> simp [huuid, hname, Identity.text]
  · simp [huuid, Identity.text]

theorem Client.text_eq_of_identity_eq {c c' : Client δ} (h : c.identity = c'.identity) : c.text = c'.text := by
  rw [text_eq, text_eq, h]

/-! ### Merging -/

/-- Clients that were merged, and what was seen of them. -/
structure Merged (all : List (Client δ)) (merged : List String × List (Client δ)) : Prop where
  order : merged.2.Sublist all
  distinct : merged.2.Pairwise fun c c' => c.identity ≠ none → c.identity ≠ c'.identity
  texts : merged.2.Pairwise fun c c' => c.text ≠ "" → c.text ≠ c'.text
  /-- A client is there as it first came. -/
  first : ∀ identity, (merged.2.find? fun c => c.identity = some identity) =
    all.find? fun c => c.identity = some identity
  seen : ∀ text ≠ "", text ∈ merged.1 ↔ ∃ c ∈ merged.2, c.text = text

theorem merged_nil : Merged ([] : List (Client δ)) ([], []) :=
  ⟨.slnil, .nil, .nil, fun _ => rfl, by simp⟩

variable {merged : List String × List (Client δ)}

theorem Merged.mergeClient {all : List (Client δ)} (h : Merged all merged) (c : Client δ)
    (hc : ∀ c' ∈ merged.2, c.text ≠ "" → c.text = c'.text → c.identity = c'.identity) :
    Merged (all ++ [c]) (mergeClient merged c) := by
  unfold MessageSender.mergeClient
  by_cases hempty : c.text = ""
  · -- a client that nothing identifies is always there
    have hnone : c.identity = none := c.text_eq_empty_iff.mp hempty
    rw [if_pos hempty]
    refine ⟨h.order.append (List.Sublist.refl _), ?_, ?_, fun identity => ?_, fun text htext => ?_⟩
    · refine List.pairwise_append.mpr ⟨h.distinct, List.pairwise_singleton _ _, fun c' _ x hx => ?_⟩
      obtain rfl := List.mem_singleton.mp hx
      rw [hnone]
      exact id
    · refine List.pairwise_append.mpr ⟨h.texts, List.pairwise_singleton _ _, fun c' _ x hx => ?_⟩
      obtain rfl := List.mem_singleton.mp hx
      rw [hempty]
      exact id
    · simp [List.find?_append, h.first, hnone]
    · rw [h.seen text htext]
      simp [hempty, htext.symm]
  · rw [if_neg hempty]
    by_cases hseen : c.text ∈ merged.1
    · -- the client that was seen is the same one
      rw [if_pos (List.contains_iff_mem.mpr hseen)]
      obtain ⟨c', hc', htext⟩ := (h.seen _ hempty).mp hseen
      have hsame := hc c' hc' hempty htext.symm
      refine ⟨h.order.trans (List.sublist_append_left _ _), h.distinct, h.texts, fun identity => ?_, h.seen⟩
      rw [h.first, List.find?_append]
      by_cases hid : c.identity = some identity
      · have hfound : (all.find? fun c => c.identity = some identity) ≠ none := by
          rw [Ne, List.find?_eq_none]
          intro hnone
          exact hnone c' (h.order.subset hc') (by simp [← hsame, hid])
        obtain ⟨x, hx⟩ := Option.ne_none_iff_exists'.mp hfound
        rw [hx]
        rfl
      · simp [hid]
    · rw [if_neg (mt List.contains_iff_mem.mp hseen)]
      have hnew : ∀ c' ∈ merged.2, c'.text ≠ c.text := fun c' hc' htext =>
        hseen ((h.seen _ hempty).mpr ⟨c', hc', htext⟩)
      refine ⟨h.order.append (List.Sublist.refl _), ?_, ?_, fun identity => ?_, fun text htext => ?_⟩
      · refine List.pairwise_append.mpr ⟨h.distinct, List.pairwise_singleton _ _, fun c' hc' x hx => ?_⟩
        obtain rfl := List.mem_singleton.mp hx
        exact fun _ hsame => hnew c' hc' (Client.text_eq_of_identity_eq hsame)
      · refine List.pairwise_append.mpr ⟨h.texts, List.pairwise_singleton _ _, fun c' hc' x hx => ?_⟩
        obtain rfl := List.mem_singleton.mp hx
        exact fun _ => hnew c' hc'
      · rw [List.find?_append, List.find?_append, h.first]
      · rw [List.mem_cons, h.seen text htext]
        simp [or_comm, or_and_right, exists_or, eq_comm]

theorem mem_of_mem_mergeClient {c c' : Client δ}
    (h : c' ∈ (mergeClient merged c).2) : c' ∈ merged.2 ∨ c' = c := by
  unfold mergeClient at h
  split_ifs at h
  · simpa using h
  · exact .inl h
  · simpa using h

theorem Merged.foldl_mergeClient {all new : List (Client δ)}
    (h : Merged all merged) (hrec : Recognized (merged.2 ++ new)) :
    Merged (all ++ new) (new.foldl MessageSender.mergeClient merged) := by
  induction new generalizing all merged with
  | nil => simpa using h
  | cons c new ih =>
    have hstep := h.mergeClient c fun c' hc' =>
      hrec c (by simp) c' (List.mem_append_left _ hc')
    have hall : ∀ c' ∈ (MessageSender.mergeClient merged c).2 ++ new, c' ∈ merged.2 ++ c :: new := by
      intro c' hc'
      rcases List.mem_append.mp hc' with hc' | hc'
      · rcases mem_of_mem_mergeClient hc' with hc' | rfl <;> simp [*]
      · simp [hc']
    have hrest := ih hstep fun x hx y hy => hrec x (hall x hx) y (hall y hy)
    rw [List.append_assoc, List.singleton_append] at hrest
    rwa [List.foldl_cons]

/-! ### Batches -/

/-- A batch that is in order. -/
structure Batch.Sound (b : Batch δ) : Prop where
  /-- It has the kind, the texts and the emoji of all its events. -/
  alike : ∀ e ∈ b.parts, e.Alike b.event
  /-- Its clients are those of its events. -/
  merged : Merged b.enqueued (b.seen, b.event.clients)

theorem Batch.Sound.faithful {b : Batch δ} (h : b.Sound) : b.Faithful :=
  ⟨h.alike, h.merged.order, h.merged.distinct, h.merged.texts, h.merged.first⟩

theorem Batch.sound_new (id : ℕ) (event : EventMessage δ) : (Batch.new id event).Sound :=
  ⟨fun _ he => (nomatch he), merged_nil⟩

/-- An event keeps a batch in order, if it is alike and its clients are told apart. -/
theorem Batch.Sound.merge {b : Batch δ} (h : b.Sound) {event : EventMessage δ} (halike : event.Alike b.event)
    (hrec : Recognized (b.event.clients ++ event.clients)) : (b.merge event).Sound := by
  refine ⟨fun e he => ?_, ?_⟩
  · rcases List.mem_append.mp he with he | he
    · exact h.alike e he
    · obtain rfl := List.mem_singleton.mp he
      exact halike
  · have hmerged := h.merged.foldl_mergeClient hrec
    have henqueued : (b.merge event).enqueued = b.enqueued ++ event.clients := by
      simp [Batch.enqueued, Batch.merge]
    rw [henqueued]
    exact hmerged

@[simp] theorem Batch.merge_parts (b : Batch δ) (event : EventMessage δ) :
    (b.merge event).parts = b.parts ++ [event] := rfl

end MessageSender

end Komari
