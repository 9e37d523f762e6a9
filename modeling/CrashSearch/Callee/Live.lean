import CrashSearch.Callee.Basic

/-!
# Called classes in use

The operations on a class under call as they change it in place. An operation that fails keeps
what was changed before. The joined graph is drawn when it is first asked for and kept until
another graph becomes involved.

## Main definitions

* `InPlace`: operations that change a state, also if they fail.
* `LiveCallee`: a class under call with the graph drawn of it.
* `LiveCallee.resolve`, `LiveCallee.involveCalled`, `LiveCallee.collect`, `LiveCallee.joined`: its
  operations.

## Main statements

* `LiveCallee.resolve_eq`, `LiveCallee.resolveAll_eq`, `LiveCallee.collect_eq`: what they do to the
  class under call.
-/

namespace CrashSearch

/-- An operation on a state. What was changed before a failure stays changed. -/
abbrev InPlace (σ α : Type) := EStateM Error σ α

namespace InPlace

variable {σ α : Type}

/-- The state after an operation. -/
def after (op : InPlace σ α) (s : σ) : σ :=
  match op s with
  | .ok _ s => s
  | .error _ s => s

theorem get_apply (s : σ) : (get : InPlace σ σ) s = .ok s s := rfl

/-- What an operation answers. -/
def answer (op : InPlace σ α) (s : σ) : Except Error α :=
  match op s with
  | .ok a _ => .ok a
  | .error e _ => .error e

end InPlace

/-- A class under call with its joined graph, if that was drawn since a graph became involved. -/
structure LiveCallee where
  callee : Callee
  drawn? : Option JoinedGraph

namespace LiveCallee

/-- A class on which no call is known. -/
def ofScope (s : Scope) : LiveCallee := ⟨.ofScope s, none⟩

/-- Records a call of a method of the class. -/
def addCallSite (l : LiveCallee) (site : CallSite) : LiveCallee :=
  { l with callee := l.callee.addCallSite site }

/-- Makes graphs involved. A drawing without them is given up. -/
def involve (l : LiveCallee) (found : List FlowGraph) : LiveCallee :=
  let involved := found.foldl Callee.involve l.callee.involved
  { callee := { l.callee with involved := involved }
    drawn? := if involved.length = l.callee.involved.length then l.drawn? else none }

/-- The graphs that a call of a method can run, which from now on are involved. -/
def resolve (method : String) : InPlace LiveCallee (List FlowGraph) := do
  let found ← MonadExcept.ofExcept ((← get).callee.scope.reach method)
  modify (·.involve found)
  return found

/-- Resolves some methods one after the other, up to the first that fails. -/
def resolveAll : List String → InPlace LiveCallee Unit
  | [] => return ()
  | m :: rest => do
    let _ ← resolve m
    resolveAll rest

/-- Resolves every called method. -/
def involveCalled : InPlace LiveCallee Unit := do
  resolveAll (← get).callee.calledMethods

/-- Adds to a call site the branches of some graphs and of the inner methods they call. -/
def takeIn (site : InstructionId) (found : List FlowGraph) :
    InPlace (LiveCallee × OrderedSet String) InnerMethods :=
  modifyGet fun (l, handled) =>
    let (c, handled, inner) := found.foldl (Callee.collectGraph site) (l.callee, handled, .empty)
    (inner, { l with callee := c }, handled)

/-- An operation on the class, beside the names that are handled. -/
def beside {α : Type} (op : InPlace LiveCallee α) : InPlace (LiveCallee × OrderedSet String) α :=
  fun (l, handled) =>
    match op l with
    | .ok a l => .ok a (l, handled)
    | .error e l => .error e (l, handled)

/-- Adds to a call site the branches that it can exercise, and to the names that are handled those
of the inner methods found. The answer holds these methods. -/
def collect (site : CallSite) : InPlace (LiveCallee × OrderedSet String) InnerMethods := do
  takeIn site.instruction (← beside (resolve site.target.methodName))

/-- The involved graphs as one, as drawn before or drawn now. -/
def joined (l : LiveCallee) : JoinedGraph × LiveCallee :=
  match l.drawn? with
  | some g => (g, l)
  | none => (l.callee.joined, { l with drawn? := some l.callee.joined })

variable {l l' : LiveCallee} {m : String} {rest : List String} {site : CallSite}
  {handled : OrderedSet String} {found : List FlowGraph} {e : Error}

theorem takeIn_eq {site : InstructionId} : takeIn site found (l, handled) =
    let result := found.foldl (Callee.collectGraph site) (l.callee, handled, .empty)
    .ok result.2.2 ({ l with callee := result.1 }, result.2.1) := rfl

theorem resolve_ok (h : l.callee.scope.reach m = .ok found) :
    resolve m l = .ok found (l.involve found) := by
  simp only [resolve, bind, EStateM.bind, InPlace.get_apply, h]
  rfl

theorem resolve_error (h : l.callee.scope.reach m = .error e) : resolve m l = .error e l := by
  simp only [resolve, bind, EStateM.bind, InPlace.get_apply, h]
  rfl

theorem resolveAll_cons_ok (h : l.callee.scope.reach m = .ok found) :
    resolveAll (m :: rest) l = resolveAll rest (l.involve found) := by
  simp only [resolveAll, bind, EStateM.bind, resolve_ok h]

theorem resolveAll_cons_error (h : l.callee.scope.reach m = .error e) :
    resolveAll (m :: rest) l = .error e l := by
  simp only [resolveAll, bind, EStateM.bind, resolve_error h]

theorem collect_ok (h : l.callee.scope.reach site.target.methodName = .ok found) :
    collect site (l, handled) = takeIn site.instruction found (l.involve found, handled) := by
  simp only [collect, beside, bind, EStateM.bind, resolve_ok h]

theorem collect_error (h : l.callee.scope.reach site.target.methodName = .error e) :
    collect site (l, handled) = .error e (l, handled) := by
  simp only [collect, beside, bind, EStateM.bind, resolve_error h]

theorem resolve_eq_error_iff :
    resolve m l = .error e l' ↔ l.callee.scope.reach m = .error e ∧ l' = l := by
  cases h : l.callee.scope.reach m with
  | ok found => simp [resolve_ok h]
  | error e' => simp [resolve_error h, eq_comm]

theorem collect_eq_error_iff {state : LiveCallee × OrderedSet String} :
    collect site (l, handled) = .error e state ↔
      l.callee.scope.reach site.target.methodName = .error e ∧ state = (l, handled) := by
  cases h : l.callee.scope.reach site.target.methodName with
  | ok found =>
    rw [collect_ok h]
    simp [takeIn_eq]
  | error e' => simp [collect_error h, eq_comm]

/-! ## The operations on the class alone -/

theorem resolve_eq : l.callee.resolve m =
    ((resolve m).answer l).map fun found => (((resolve m).after l).callee, found) := by
  unfold Callee.resolve InPlace.answer InPlace.after
  cases h : l.callee.scope.reach m with
  | ok found =>
    rw [resolve_ok h]
    rfl
  | error e =>
    rw [resolve_error h]
    rfl

theorem resolveAll_eq (methods : List String) : l.callee.resolveAll methods =
    (((resolveAll methods).after l).callee, (resolveAll methods).answer l) := by
  induction methods generalizing l with
  | nil => rfl
  | cons m rest ih =>
    unfold Callee.resolveAll Callee.resolve InPlace.answer InPlace.after
    cases h : l.callee.scope.reach m with
    | ok found =>
      rw [resolveAll_cons_ok h]
      exact ih (l := l.involve found)
    | error e =>
      rw [resolveAll_cons_error h]
      rfl

theorem involveCalled_eq :
    l.callee.involveCalled = ((involveCalled.after l).callee, involveCalled.answer l) :=
  resolveAll_eq l.callee.calledMethods

theorem collect_eq : l.callee.collect site handled =
    ((collect site).answer (l, handled)).map fun inner =>
      (((collect site).after (l, handled)).1.callee,
        ((collect site).after (l, handled)).2, inner) := by
  unfold Callee.collect Callee.resolve InPlace.answer InPlace.after
  cases h : l.callee.scope.reach site.target.methodName with
  | ok found =>
    rw [collect_ok h]
    rfl
  | error e =>
    rw [collect_error h]
    rfl

end LiveCallee

end CrashSearch
