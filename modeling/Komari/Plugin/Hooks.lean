import Komari.Await.Jobs
import Komari.Plugin.Buffered

/-!
# Hooks that are given up on

The hooks of the plugins may change a WebSocket frame, or a response that was captured. Each is awaited for
some time only. The job of a hook that timed out keeps running, and it writes to the same variables, or to
the same buffer, as the hooks after it.

* `takesEffect_of_quiet` : it does if late jobs write nothing before the return.
-/

namespace Komari

namespace Plugin

open Await (Action Hook Job Quiet Waiter sequential)

/-! ### Frames -/

/-- The variables that the frame hooks share. -/
structure Frame where
  frameType : ℤ
  next : List UInt8
  deriving DecidableEq

/-- What the callback of a frame hook comes to. -/
inductive Reply where
  | failed
  | pass
  | drop
  | replace (type : Option ℤ) (data : Option (List UInt8))
  /-- An error after the type of the frame was taken, as from a getter of its data. -/
  | failedAfter (type : ℤ)
  deriving DecidableEq

/-- `8 << 20` -/
def maxWSFrameBytes : ℕ := 8 * 2 ^ 20

/-- A job that sets the type. -/
def setType (type : ℤ) (f : Frame) : Frame := { f with frameType := type }

/-- A job that sets the data. -/
def setData (data : List UInt8) (f : Frame) : Frame := { f with next := data }

/-- A write that is made if there is something to write. -/
def writeSome {σ α : Type} (write : α → σ → σ) (value : Option α) (rest : Job σ) : Job σ :=
  match value with
  | some a => .step (write a) fun _ => rest
  | none => rest

/-- The job of a frame hook: it reads the frame for its callback, and then writes what the callback gave. -/
def frameJob (callback : Frame → Reply) : Job Frame :=
  .step id fun f =>
    match callback f with
    | .failed => .done .failed
    | .pass => .done .ok
    | .drop => .done .stop
    | .replace type data => writeSome setType type (writeSome setData data (.done .ok))
    | .failedAfter type => .step (setType type) fun _ => .done .failed

/-- A frame hook: the loop of its plugin, and its callback. -/
structure FrameHook where
  loop : ℕ
  callback : Frame → Reply

/-- The hook and its job. -/
def FrameHook.hook (h : FrameHook) : Hook Frame := ⟨h.loop, frameJob h.callback⟩

/-- What `runFrameHooks` returns: type, data, and whether the frame is dropped. -/
def frameResult (f : Frame) (dropped : Bool) : ℤ × List UInt8 × Bool :=
  (f.frameType, if dropped then [] else f.next, dropped)

/-- The state in which `runFrameHooks` begins: without hooks, or with a frame that is too large, it has
returned already. -/
def startFrame (hooks : List FrameHook) (f : Frame) : Await.State Frame :=
  if hooks.length = 0 ∨ f.next.length > maxWSFrameBytes then ⟨f, .returned f false, [], []⟩
  else Await.start (hooks.map FrameHook.hook) f

/-- Some steps of `runFrameHooks` and of the loops; a hook whose job is refused ends it. -/
def runFrameHooks (hooks : List FrameHook) (f : Frame) (actions : List Action) : Await.State Frame :=
  actions.foldl (Await.step true) (startFrame hooks f)

/-! ### Responses -/

/-- What a response hook makes of the response that it got; nothing, if it fails. -/
structure Modified where
  statusCode : Option ℤ
  headers : Option Header
  body : Option (List UInt8)

/-- The job of a response hook: it reads the response for its callback, and then applies what it left. -/
def responseJob (callback : ℤ → Header → List UInt8 → Option Modified) : Job BufferedResponseWriter :=
  .step id fun b₁ => .step id fun b₂ => .step id fun b₃ =>
    match callback b₁.status b₂.header b₃.body with
    | none => .done .failed
    | some m =>
      .step id fun b₄ => .step id fun b₅ => .step id fun b₆ =>
        .step (fun b => b.apply (m.statusCode.getD b₄.status) (m.headers.getD b₅.header)
          (m.body.getD b₆.body)) fun _ => .done .ok

/-- A response hook: the loop of its plugin, and its callback. -/
structure ResponseHook where
  loop : ℕ
  callback : ℤ → Header → List UInt8 → Option Modified

/-- The hook and its job. -/
def ResponseHook.hook (h : ResponseHook) : Hook BufferedResponseWriter := ⟨h.loop, responseJob h.callback⟩

/-- Some steps of the response part of `wrapHandler` and of the loops, from the response that the handler has
left; a hook whose job is refused is passed over. -/
def runResponseHooks (hooks : List ResponseHook) (b : BufferedResponseWriter) (actions : List Action) :
    Await.State BufferedResponseWriter :=
  actions.foldl (Await.step false) (Await.start (hooks.map ResponseHook.hook) b)

/-! ### Late jobs -/

/-- What `runFrameHooks` returns is what some of the hooks make of the frame, in their order and each on the
result of the one before: those whose jobs ended in time and did not fail. -/
def FrameTakesEffect (hooks : List FrameHook) (f : Frame) (s : Await.State Frame) : Prop :=
  s.kept.Sublist (hooks.map FrameHook.hook) ∧
    ∀ result dropped, s.waiter = .returned result dropped →
      frameResult result dropped = frameResult (sequential s.kept f).1 (sequential s.kept f).2

/-- What is sent is what those hooks make of the response. -/
def ResponseTakesEffect (hooks : List ResponseHook) (b : BufferedResponseWriter)
    (s : Await.State BufferedResponseWriter) : Prop :=
  s.kept.Sublist (hooks.map ResponseHook.hook) ∧
    ∀ result stopped, s.waiter = .returned result stopped →
      result.flushTo = (sequential s.kept b).1.flushTo

theorem startFrame_held (hooks : List FrameHook) (f : Frame) : Await.Held f (startFrame hooks f) := by
  rw [startFrame]
  split_ifs
  · rfl
  · exact Await.held_start _ f

theorem startFrame_inOrder (hooks : List FrameHook) (f : Frame) :
    Await.InOrder (hooks.map FrameHook.hook) (startFrame hooks f) := by
  rw [startFrame]
  split_ifs
  · exact List.nil_sublist _
  · exact List.Sublist.refl _

theorem frameTakesEffect_of_held {hooks : List FrameHook} {f : Frame} {s : Await.State Frame}
    (h : Await.Held f s) (horder : Await.InOrder (hooks.map FrameHook.hook) s) :
    FrameTakesEffect hooks f s := by
  refine ⟨(List.sublist_append_left _ _).trans horder, fun result dropped hw => ?_⟩
  rw [Await.Held, hw] at h
  rw [h]

theorem responseTakesEffect_of_held {hooks : List ResponseHook} {b : BufferedResponseWriter}
    {s : Await.State BufferedResponseWriter} (h : Await.Held b s)
    (horder : Await.InOrder (hooks.map ResponseHook.hook) s) : ResponseTakesEffect hooks b s := by
  refine ⟨(List.sublist_append_left _ _).trans horder, fun result stopped hw => ?_⟩
  rw [Await.Held, hw] at h
  rw [h]

/-- **In every run whose late jobs write nothing, the frame that is returned and the response that is sent
come from the hooks that ended in time and did not fail.** -/
theorem takesEffect_of_quiet (hooks : List FrameHook) (f : Frame) (actions : List Action)
    (responseHooks : List ResponseHook) (b : BufferedResponseWriter) (responseActions : List Action) :
    (Run.Along (Await.step true) Quiet (startFrame hooks f) actions →
      FrameTakesEffect hooks f (runFrameHooks hooks f actions)) ∧
    (Run.Along (Await.step false) Quiet (Await.start (responseHooks.map ResponseHook.hook) b)
        responseActions →
      ResponseTakesEffect responseHooks b (runResponseHooks responseHooks b responseActions)) := by
  constructor
  · intro h
    have hheld := h.invariant (fun _ _ h hquiet => Await.held_step h hquiet) (startFrame_held hooks f)
    exact frameTakesEffect_of_held hheld (Await.inOrder_foldl (startFrame_inOrder hooks f) actions)
  · intro h
    have horder : Await.InOrder (responseHooks.map ResponseHook.hook)
        (Await.start (responseHooks.map ResponseHook.hook) b) := List.Sublist.refl _
    exact responseTakesEffect_of_held (Await.held_of_quiet h) (Await.inOrder_foldl horder responseActions)

/-! ### Two hooks -/

/-- The frame that is sent. -/
def hello : Frame := ⟨1, [104, 105]⟩

/-- A hook that replaces the text, and one of another plugin that does nothing. -/
def twoHooks : List FrameHook := [⟨0, fun _ => .replace none (some [108])⟩, ⟨1, fun _ => .pass⟩]

/-- The first hook times out and the second one ends in time; the first one writes before the return. -/
def overtaken : List Action :=
  [.queue, .timeOut, .queue, .work, .finish, .workLate 0, .workLate 0, .giveBack]

/-- The same, with a first hook that goes on after the return only. -/
def outlived : List Action :=
  [.queue, .timeOut, .queue, .work, .finish, .giveBack, .workLate 0, .workLate 0]

/-- Two response hooks that set the status. -/
def statusHooks : List ResponseHook :=
  [⟨0, fun _ _ _ => some ⟨some 500, none, none⟩⟩, ⟨1, fun _ _ _ => some ⟨some 404, none, none⟩⟩]

/-- The first one times out, and goes on after the response was sent only. -/
def outlivedResponse : List Action :=
  [.queue, .timeOut, .queue, .work, .work, .work, .work, .work, .work, .work, .finish, .giveBack, .workLate 0]

/-- The frame that is returned has the data of the hook that timed out. -/
theorem not_takesEffect_overtaken : ¬FrameTakesEffect twoHooks hello (runFrameHooks twoHooks hello overtaken) := by
  rintro ⟨-, h⟩
  exact absurd (h ⟨1, [108]⟩ false rfl) (by decide)

/-- Runs in which late jobs go on after the return. -/
theorem takesEffect_outlived : FrameTakesEffect twoHooks hello (runFrameHooks twoHooks hello outlived) ∧
    ResponseTakesEffect statusHooks (newBufferedResponseWriter maxHookBufferBytes newResponseWriter)
      (runResponseHooks statusHooks (newBufferedResponseWriter maxHookBufferBytes newResponseWriter)
        outlivedResponse) := by
  have h := takesEffect_of_quiet twoHooks hello outlived statusHooks
    (newBufferedResponseWriter maxHookBufferBytes newResponseWriter) outlivedResponse
  refine ⟨h.1 ⟨trivial, ?_, trivial, trivial, ?_, trivial, ?_, ?_, trivial⟩,
    h.2 ⟨trivial, ?_, trivial, trivial, trivial, trivial, trivial, trivial, trivial, trivial, ?_, trivial, ?_,
        trivial⟩⟩
  · intro h job base rest hw
    cases hw
    rfl
  · intro h base rest hw
    cases hw
  · exact fun _ _ _ _ => Or.inl ⟨_, _, rfl⟩
  · exact fun _ _ _ _ => Or.inl ⟨_, _, rfl⟩
  · intro h job base rest hw
    cases hw
    rfl
  · intro h base rest hw
    cases hw
  · exact fun _ _ _ _ => Or.inl ⟨_, _, rfl⟩

end Plugin

end Komari
