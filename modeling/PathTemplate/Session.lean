/-
Sessions: options that change step by step, and slots for what was made under them.

A session has a draft, which steps change, and current options, which a sound draft becomes
when it is built. Routes, matchers and renderers are made under the current options and kept
in slots with the options they were made with. A step that fails leaves the slots and the
current options as they were.
-/

import PathTemplate.Shown

namespace PathTemplate

/-- What a slot holds. -/
inductive Stored where
  | route (route : Route)
  | matcher (matcher : Matcher)
  | renderer (renderer : Renderer)

/-- The state of a session. -/
structure Session where
  draft : Options := {}
  current : Options := {}
  /-- The slots in use, the one filled last first. -/
  slots : List (String × Stored) := []

/-- What a renderer is made of. -/
inductive RendererInput where
  | pattern (text : String)
  | tokens (tokens : List Token)

/-- A step of a session. -/
inductive SessionStep where
  /-- Change the draft. -/
  | change (change : OptionsChange)
  /-- The draft becomes current. -/
  | build
  /-- Start again with the default options. -/
  | reset
  /-- The tokens of a pattern. -/
  | parse (pattern : String)
  | route (slot : String) (input : RouteInput)
  | matcher (slot : String) (input : RouteInput)
  | renderer (slot : String) (input : RendererInput)
  /-- Whether the route in a slot, or what the matcher in it, finds in a text. -/
  | find (slot : String) (text : String)
  /-- The path that the renderer in a slot makes of parameters. -/
  | render (slot : String) (params : Params)
  /-- What a slot holds. -/
  | inspect (slot : String)

/-- What a step answers. -/
inductive SessionAnswer where
  | nothing
  | text (text : String)
  | truth (value : Bool)
  | tokens (tokens : List Token)
  | route (route : Route)
  | matcher (matcher : Matcher)
  | found (found : Option PathMatch)

/-- Why a step fails. -/
inductive SessionError where
  | build (error : BuildError)
  | render (error : RenderError)
  /-- The slot holds nothing that the step can use. -/
  | emptySlot

namespace Session

/-- What a slot holds. -/
def slot? (session : Session) (name : String) : Option Stored := session.slots.lookup name

/-- The session with something in a slot. -/
def store (name : String) (stored : Stored) (session : Session) : Session :=
  { session with slots := (name, stored) :: session.slots }

/-- The route in a slot. -/
def route? (session : Session) (name : String) : Option Route :=
  match session.slot? name with
  | some (.route route) => some route
  | _ => none

/-- The renderer of an input. -/
def rendererOf (options : Options) : RendererInput → Except BuildError Renderer
  | .pattern text => Renderer.ofPattern options text
  | .tokens tokens => Renderer.ofTokens options tokens

/-- The text of what a slot holds, as it is shown to a programmer. -/
def shownStored : Stored → String
  | .route route => route.expression.source
  | .matcher matcher => matcher.shown
  | .renderer renderer => renderer.shown

/-- Take a step. -/
def step (session : Session) : SessionStep → Except SessionError (SessionAnswer × Session)
  | .change change => .ok (.nothing, { session with draft := change.apply session.draft })
  | .build =>
    match session.draft.check with
    | .ok () => .ok (.text session.draft.shown, { session with current := session.draft })
    | .error error => .error (.build (.options error))
  | .reset => .ok (.nothing, { session with draft := {}, current := {} })
  | .parse pattern =>
    match tokensOf session.current pattern with
    | .ok tokens => .ok (.tokens tokens, session)
    | .error error => .error (.build (.parse error))
  | .route slot input =>
    match Route.ofInput session.current input with
    | .ok route => .ok (.route route, session.store slot (.route route))
    | .error error => .error (.build error)
  | .matcher slot input =>
    match Matcher.ofInput session.current input with
    | .ok matcher => .ok (.matcher matcher, session.store slot (.matcher matcher))
    | .error error => .error (.build error)
  | .renderer slot input =>
    match rendererOf session.current input with
    | .ok renderer => .ok (.tokens renderer.tokens, session.store slot (.renderer renderer))
    | .error error => .error (.build error)
  | .find slot text =>
    match session.slot? slot with
    | some (.route route) => .ok (.truth (route.isMatch text), session)
    | some (.matcher matcher) => .ok (.found (matcher.run text), session)
    | _ => .error .emptySlot
  | .render slot params =>
    match session.slot? slot with
    | some (.renderer renderer) =>
      match renderer.render params with
      | .ok path => .ok (.text path, session)
      | .error error => .error (.render error)
    | _ => .error .emptySlot
  | .inspect slot =>
    match session.slot? slot with
    | some stored => .ok (.text (shownStored stored), session)
    | none => .error .emptySlot

end Session

end PathTemplate
