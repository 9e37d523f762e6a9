import CrashSearch.Classes.CallGraph
import CrashSearch.Ordered.Assoc

/-!
# Class hierarchies

What is known of the classes of a program: superclass, interfaces, methods and the calls between
them.

## Main definitions

* `ClassInfo`: the facts of one class.
* `Hierarchy`: the classes by name.
* `Hierarchy.callGraph`, `Hierarchy.superclasses`: the call graph of a class, and the classes it
  inherits from.

## Main statements

* `ClassInfo.mem_children_callGraph`: the call graph of a class holds its calls and no others.
-/

namespace CrashSearch

/-- The facts of one class. -/
structure ClassInfo where
  name : String
  superclass : Option String
  interfaces : List String
  isInterface : Bool
  /-- The declared methods. -/
  methods : List String
  /-- Pairs of a calling and a called method of the class. -/
  calls : List (String × String)
  deriving DecidableEq

namespace ClassInfo

/-- A class of which only the name is known. -/
def named (name : String) : ClassInfo := ⟨name, none, [], false, [], []⟩

/-- The class with a superclass. -/
def withSuperclass (c : ClassInfo) (name : String) : ClassInfo := { c with superclass := some name }

/-- The class with one more interface. -/
def withInterface (c : ClassInfo) (name : String) : ClassInfo :=
  { c with interfaces := c.interfaces ++ [name] }

/-- The class as an interface. -/
def asInterface (c : ClassInfo) : ClassInfo := { c with isInterface := true }

/-- The class with one more method. -/
def withMethod (c : ClassInfo) (name : String) : ClassInfo :=
  { c with methods := c.methods ++ [name] }

/-- The class with one more call. -/
def withCall (c : ClassInfo) (caller callee : String) : ClassInfo :=
  { c with calls := c.calls ++ [(caller, callee)] }

/-- The call graph of the class, under the name by which it was asked for. -/
def callGraph (c : ClassInfo) (className : String) : CallGraph :=
  c.calls.foldl (fun g call => g.addEdge call.1 call.2)
    (c.methods.foldl CallGraph.addMethod (.empty className))

theorem mem_children_callGraph {c : ClassInfo} {className x y : String} :
    y ∈ (c.callGraph className).children x ↔ (x, y) ∈ c.calls := by
  have hmethods : ∀ (l : List String) (g : CallGraph),
      y ∈ (l.foldl CallGraph.addMethod g).children x ↔ y ∈ g.children x := by
    intro l
    induction l with
    | nil => simp
    | cons m l ih => exact fun g => (ih _).trans CallGraph.mem_children_addMethod
  have hcalls : ∀ (l : List (String × String)) (g : CallGraph),
      y ∈ (l.foldl (fun g call => g.addEdge call.1 call.2) g).children x ↔
        y ∈ g.children x ∨ (x, y) ∈ l := by
    intro l
    induction l with
    | nil => simp
    | cons call l ih =>
      intro g
      rw [List.foldl_cons, ih, CallGraph.mem_children_addEdge, List.mem_cons, or_assoc,
        Prod.ext_iff]
  have hempty : (CallGraph.empty className).children x = [] := rfl
  simp [callGraph, hcalls, hmethods, hempty]

end ClassInfo

/-- The classes of a program by name. -/
structure Hierarchy where
  classes : Assoc String ClassInfo

namespace Hierarchy

/-- The class from which all others inherit; it is never listed as a superclass. -/
def root : String := "java.lang.Object"

/-- The hierarchy without classes. -/
def empty : Hierarchy := ⟨.empty⟩

/-- Adds a class, in the place of an earlier one with its name. -/
def insert (h : Hierarchy) (c : ClassInfo) : Hierarchy := ⟨h.classes.insert c.name c⟩

/-- The hierarchy of some classes; of several with one name the last counts. -/
def ofClasses (classes : List ClassInfo) : Hierarchy := classes.foldl insert empty

/-- The facts of a class. -/
def find? (h : Hierarchy) (name : String) : Option ClassInfo := h.classes.get? name

/-- The call graph of a class; that of an unknown class is empty. -/
def callGraph (h : Hierarchy) (name : String) : CallGraph :=
  match h.find? name with
  | some c => c.callGraph name
  | none => .empty name

theorem mem_children_callGraph {h : Hierarchy} {name x y : String} :
    y ∈ (h.callGraph name).children x ↔ ∃ c, h.find? name = some c ∧ (x, y) ∈ c.calls := by
  unfold callGraph
  cases h.find? name with
  | none => simp [CallGraph.empty, CallGraph.children, CallGraph.node?]
  | some c => simp [ClassInfo.mem_children_callGraph]

/-- The recorded superclass of a class. -/
def superclass? (h : Hierarchy) (name : String) : Option String :=
  h.find? name >>= (·.superclass)

/-- How many known classes were not visited. -/
def unvisited (h : Hierarchy) (visited : List String) : Nat :=
  (h.classes.keys.filter (· ∉ visited)).length

theorem mem_keys_of_superclass? {h : Hierarchy} {name s : String}
    (hs : h.superclass? name = some s) : name ∈ h.classes.keys := by
  simp only [superclass?, find?, Assoc.get?, Option.bind_eq_bind, Option.bind_eq_some_iff,
    Option.map_eq_some_iff] at hs
  obtain ⟨c, ⟨e, he, -⟩, -⟩ := hs
  have hm := List.mem_of_find?_eq_some he
  have hk := List.find?_some he
  simp only [decide_eq_true_eq] at hk
  exact hk ▸ List.mem_map_of_mem hm

theorem unvisited_cons_lt {h : Hierarchy} {name : String} {visited : List String}
    (hk : name ∈ h.classes.keys) (hv : name ∉ visited) :
    h.unvisited (name :: visited) < h.unvisited visited := by
  unfold unvisited
  have hsub : ∀ x, x ∈ h.classes.keys.filter (· ∉ name :: visited) →
      x ∈ h.classes.keys.filter (· ∉ visited) := by
    intro x hx; simp at hx ⊢; exact ⟨hx.1, hx.2.2⟩
  have heq : h.classes.keys.filter (· ∉ name :: visited) =
      (h.classes.keys.filter (· ∉ visited)).filter (· ≠ name) := by
    rw [List.filter_filter]
    congr 1
    funext x
    simp [not_or]
  rw [heq]
  refine List.length_filter_lt_length_iff_exists.2 ⟨name, ?_, by simp⟩
  simp [hk, hv]

/-- The superclasses above `name`, nearest first, up to the root, an unknown class or one that was
`visited`. -/
def chain (h : Hierarchy) (visited : List String) (name : String) (new : name ∉ visited) :
    List String :=
  match hs : h.superclass? name with
  | none => []
  | some s =>
    if hv : s = root ∨ s ∈ name :: visited then []
    else
      have := unvisited_cons_lt (mem_keys_of_superclass? hs) new
      s :: h.chain (name :: visited) s (fun hm => hv (.inr hm))
termination_by h.unvisited visited

theorem chain_eq_nil {h : Hierarchy} {visited : List String} {name : String}
    (hs : h.superclass? name = none) (new : name ∉ visited) : h.chain visited name new = [] := by
  rw [chain]
  split
  · rfl
  · simp_all

theorem chain_eq_cons {h : Hierarchy} {visited : List String} {name s : String}
    (hs : h.superclass? name = some s) (hv : ¬(s = root ∨ s ∈ name :: visited))
    (new : name ∉ visited) :
    h.chain visited name new = s :: h.chain (name :: visited) s (fun hm => hv (.inr hm)) := by
  rw [chain]
  split
  · simp_all
  · rename_i s' hs'
    obtain rfl := Option.some.inj (hs.symm.trans hs')
    rw [dif_neg hv]

/-- The superclasses of a class, nearest first and without the root. -/
def superclasses (h : Hierarchy) (name : String) : List String :=
  h.chain [] name List.not_mem_nil

/-- Whether a class is known to be an interface. -/
def isInterface (h : Hierarchy) (name : String) : Bool :=
  match h.find? name with
  | some c => c.isInterface
  | none => false

/-- The interfaces that a class implements itself. -/
def interfacesOf (h : Hierarchy) (name : String) : List String :=
  match h.find? name with
  | some c => c.interfaces
  | none => []

/-- The names of the known classes in ascending order. -/
def loaded (h : Hierarchy) : List String := h.classes.keys.mergeSort (· ≤ ·)

end Hierarchy

end CrashSearch
