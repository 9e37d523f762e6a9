import CrashSearch.Callee.Live

/-!
# Registries of called classes

All classes under call of one session. Each is built once, at its first request.

## Main definitions

* `Registry`: the classes built so far, and the inner methods handled for any of them.
* `Registry.request`: the class of a name, built from call sites if it is new.
* `Registry.serve`: a request as it changes the registry in place, where each call site adds to the
  inner methods that are handled before it is known whether the build succeeds.
-/

namespace CrashSearch

/-- The classes under call of one session. -/
structure Registry where
  hierarchy : Hierarchy
  program : Program
  session : Session
  callees : Assoc String Callee
  /-- The inner methods that some call site has taken in. -/
  handled : OrderedSet String

namespace Registry

/-- The registry of a session before its first request. -/
def new (hierarchy : Hierarchy) (program : Program) (session : Session) : Registry :=
  ⟨hierarchy, program, session, .empty, .empty⟩

/-- A class that was built. -/
def get? (r : Registry) (className : String) : Option Callee := r.callees.get? className

/-- Collects the branches of some call sites one after the other. -/
def collectAll (c : Callee) (handled : OrderedSet String) :
    List CallSite → Except Error (Callee × OrderedSet String)
  | [] => .ok (c, handled)
  | site :: rest => do
    let (c, handled, _) ← c.collect site handled
    collectAll c handled rest

/-- Builds a class from its call sites. -/
def build (r : Registry) (className : String) (sites : List CallSite) :
    Except Error (Callee × OrderedSet String) :=
  let scope := Scope.ofClass r.hierarchy r.program r.session className
  match (sites.foldl Callee.addCallSite (.ofScope scope)).involveCalled with
  | (_, .error e) => .error e
  | (c, .ok ()) => collectAll c r.handled sites

/-- The class of a name. It is built at the first request; one that fails changes nothing. -/
def request (r : Registry) (className : String) (sites : List CallSite) :
    Except Error (Registry × Callee) :=
  match r.get? className with
  | some c => .ok (r, c)
  | none => do
    let (c, handled) ← r.build className sites
    return ({ r with callees := r.callees.insert className c, handled := handled }, c)

/-- Collects the branches of a call site for a class that is being built. -/
def collectFor (l : LiveCallee) (site : CallSite) : InPlace Registry LiveCallee := fun r =>
  match LiveCallee.collect site (l, r.handled) with
  | .ok _ (l, handled) => .ok l { r with handled := handled }
  | .error e (_, handled) => .error e { r with handled := handled }

/-- Collects the branches of some call sites one after the other, up to the first that fails. -/
def collectEach (l : LiveCallee) : List CallSite → InPlace Registry LiveCallee
  | [] => return l
  | site :: rest => do collectEach (← collectFor l site) rest

/-- Resolves the calls on a new class. -/
def involveNew (className : String) (sites : List CallSite) : InPlace Registry LiveCallee :=
  fun r =>
  let scope := Scope.ofClass r.hierarchy r.program r.session className
  match LiveCallee.involveCalled (sites.foldl LiveCallee.addCallSite (.ofScope scope)) with
  | .ok _ l => .ok l r
  | .error e _ => .error e r

/-- The class of a name, built from call sites if it is new. A class counts as built at the end. -/
def serve (className : String) (sites : List CallSite) : InPlace Registry Callee := do
  match (← get).get? className with
  | some c => return c
  | none =>
    let l ← collectEach (← involveNew className sites) sites
    modify fun r => { r with callees := r.callees.insert className l.callee }
    return l.callee

end Registry

end CrashSearch
