import ClosureConversion.Hierarchy.CoreClasses

/-!
Contract: classes by name, and walks along their superclasses and interfaces.

Owns:
- finding the declaration of a class: one that was declared to the hierarchy shadows a
  class file, and a class file shadows a class of the platform;
- the chain of superclasses;
- the search through a class and all it inherits from, which visits every class at
  most once;
- the descent through the same classes, which visits a class again wherever it is inherited
  from again.

The chain and the descent have no end where a class is above itself. They say so with an
error of its own.

Does not own: which types are assignable to which.
-/

namespace ClosureConversion

/-- Classes by name. Of several declarations of one name the first one counts, and so
does the first one of several class files. -/
structure Hierarchy where
  declared : List ClassDeclaration
  loaded : List (BinaryName × Except BytecodeError ClassDeclaration)

namespace Hierarchy

/-- The classes of the platform alone. -/
def core : Hierarchy where
  declared := []
  loaded := []

/-- The classes of named class files, and those of the platform. Of several files of one
name in a group the last one counts, and earlier groups come before later ones. -/
def ofClassFiles (groups : List (List (BinaryName × Bytes))) : Hierarchy where
  declared := []
  loaded := groups.flatMap fun group =>
    group.reverse.map fun (name, bytes) => (name, ClassDeclaration.ofBytes bytes)

/-- Adds a class, unless one of its name was declared before. -/
def declare (hierarchy : Hierarchy) (declaration : ClassDeclaration) : Hierarchy :=
  { hierarchy with declared := hierarchy.declared ++ [declaration] }

/-- Adds a class, in place of any other of its name. -/
def shadow (hierarchy : Hierarchy) (declaration : ClassDeclaration) : Hierarchy :=
  { hierarchy with declared := declaration :: hierarchy.declared }

/-- The declaration of a class that is found without being declared to the hierarchy. -/
def resolveLoaded (hierarchy : Hierarchy) (name : BinaryName) :
    Except BytecodeError ClassDeclaration :=
  match hierarchy.loaded.find? fun entry => entry.1 = name with
  | some (_, result) => result
  | none =>
      match CoreClass.find? name with
      | some declaration => .ok declaration
      | none => .error (.missingClass name.text)

/-- The declaration of a class. -/
def resolve (hierarchy : Hierarchy) (name : BinaryName) :
    Except BytecodeError ClassDeclaration :=
  match hierarchy.declared.find? fun declaration => declaration.name = name with
  | some declaration => .ok declaration
  | none => hierarchy.resolveLoaded name

/-! ## There are finitely many classes -/

/-- The names of all classes that may be found. -/
def names (hierarchy : Hierarchy) : List BinaryName :=
  hierarchy.declared.map ClassDeclaration.name ++ hierarchy.loaded.map Prod.fst ++
    CoreClass.all.map ClassDeclaration.name

theorem mem_names_of_resolve
    {hierarchy : Hierarchy}
    {name : BinaryName}
    {declaration : ClassDeclaration}
    (found : hierarchy.resolve name = .ok declaration) :
    name ∈ hierarchy.names := by
  unfold resolve at found
  split at found
  · rename_i declared isDeclared
    have named := List.find?_some isDeclared
    have member := List.mem_of_find?_eq_some isDeclared
    simp only [decide_eq_true_eq] at named
    exact List.mem_append_left _ (List.mem_append_left _ (named ▸ List.mem_map_of_mem member))
  · unfold resolveLoaded at found
    split at found
    · rename_i loaded result isLoaded
      have named := List.find?_some isLoaded
      have member := List.mem_of_find?_eq_some isLoaded
      simp only [decide_eq_true_eq] at named
      exact List.mem_append_left _
        (List.mem_append_right _ (List.mem_map.mpr ⟨_, member, named⟩))
    · split at found
      · rename_i core isCore
        have named := List.find?_some isCore
        have member := List.mem_of_find?_eq_some isCore
        simp only [decide_eq_true_eq] at named
        exact List.mem_append_right _ (named ▸ List.mem_map_of_mem member)
      · simp at found

/-- How many of the names were not visited yet. -/
def unvisited (hierarchy : Hierarchy) (visited : List BinaryName) : Nat :=
  (hierarchy.names.filter fun name => !visited.contains name).length

theorem length_filter_lt_of_mem
    {names visited : List BinaryName}
    {name : BinaryName}
    (known : name ∈ names)
    (fresh : visited.contains name = false) :
    (names.filter fun other => !(name :: visited).contains other).length <
      (names.filter fun other => !visited.contains other).length := by
  have refine_filter :
      (names.filter fun other => !(name :: visited).contains other) =
        (names.filter fun other => !visited.contains other).filter (· ≠ name) := by
    rw [List.filter_filter]
    congr 1
    funext other
    by_cases same : other = name <;> simp [same]
  rw [refine_filter]
  apply List.length_filter_lt_length_iff_exists.mpr
  exact ⟨name, List.mem_filter.mpr ⟨known, by simpa using fresh⟩, by simp⟩

/-- Visiting another class leaves fewer of them. -/
theorem unvisited_cons_lt
    {hierarchy : Hierarchy}
    {visited : List BinaryName}
    {name : BinaryName}
    {declaration : ClassDeclaration}
    (found : hierarchy.resolve name = .ok declaration)
    (fresh : visited.contains name = false) :
    hierarchy.unvisited (name :: visited) < hierarchy.unvisited visited :=
  length_filter_lt_of_mem (mem_names_of_resolve found) fresh

/-! ## Superclasses -/

/-- A class and its superclasses, nearest first, none of which may have been visited. -/
def chainFrom (hierarchy : Hierarchy) (name : BinaryName) (visited : List BinaryName) :
    Except BytecodeError (List ClassDeclaration) :=
  match _fresh : visited.contains name with
  | true => .error (.circularHierarchy name.text)
  | false =>
      match _found : hierarchy.resolve name with
      | .error error => .error error
      | .ok declaration =>
          match declaration.super with
          | none => .ok [declaration]
          | some super =>
              match chainFrom hierarchy super (name :: visited) with
              | .ok chain => .ok (declaration :: chain)
              | .error error => .error error
termination_by hierarchy.unvisited visited
decreasing_by exact unvisited_cons_lt _found _fresh

/-- A class and its superclasses, nearest first. -/
def superclasses (hierarchy : Hierarchy) (name : BinaryName) :
    Except BytecodeError (List ClassDeclaration) :=
  hierarchy.chainFrom name []

/-! ## Search -/

/-- Visits the classes of a list in order, and after each class, before the rest of the
list, those that `next` names. Ends at the first class that `answer` has an answer
for. -/
def search {α : Type} (hierarchy : Hierarchy)
    (answer : BinaryName → ClassDeclaration → Option α)
    (next : ClassDeclaration → List BinaryName)
    (toVisit visited : List BinaryName) : Except BytecodeError (Option α) :=
  match toVisit with
  | [] => .ok none
  | name :: rest =>
      match _fresh : visited.contains name with
      | true => hierarchy.search answer next rest visited
      | false =>
          match _found : hierarchy.resolve name with
          | .error error => .error error
          | .ok declaration =>
              match answer name declaration with
              | some value => .ok (some value)
              | none => hierarchy.search answer next (next declaration ++ rest) (name :: visited)
termination_by (hierarchy.unvisited visited, toVisit.length)
decreasing_by
  · exact Prod.Lex.right _ (by simp)
  · exact Prod.Lex.left _ _ (unvisited_cons_lt _found _fresh)

/-- Visits the classes of a list in order, and after each class, before the rest of the
list, those that `next` names, visited or not. Ends at the first class that `answer` has an
answer for. No class may be among those that led to it. -/
def descend {α : Type} (hierarchy : Hierarchy)
    (answer : BinaryName → ClassDeclaration → Option α)
    (next : ClassDeclaration → List BinaryName)
    (toVisit below : List BinaryName) : Except BytecodeError (Option α) :=
  match toVisit with
  | [] => .ok none
  | name :: rest =>
      match _fresh : below.contains name with
      | true => .error (.circularHierarchy name.text)
      | false =>
          match _found : hierarchy.resolve name with
          | .error error => .error error
          | .ok declaration =>
              match answer name declaration with
              | some value => .ok (some value)
              | none =>
                  match hierarchy.descend answer next (next declaration) (name :: below) with
                  | .ok none => hierarchy.descend answer next rest below
                  | result => result
termination_by (hierarchy.unvisited below, toVisit.length)
decreasing_by
  · exact Prod.Lex.left _ _ (unvisited_cons_lt _found _fresh)
  · exact Prod.Lex.right _ (by simp)

/-- What a class inherits from: its superclass, then its interfaces. -/
def parents (declaration : ClassDeclaration) : List BinaryName :=
  declaration.super.toList ++ declaration.interfaces

/-- The method that a call on a class refers to, with the class that declares it: all
superclasses come before any interface. -/
def findMethod? (hierarchy : Hierarchy) (owner : BinaryName) (name : UnqualifiedName)
    (type : MethodType) :
    Except BytecodeError (Option (ClassDeclaration × MethodDeclaration)) :=
  hierarchy.search
    (fun _ declaration => (declaration.method? name type).map (declaration, ·))
    parents [owner] []

/-- The field of a class, with the class that declares it. -/
def findField? (hierarchy : Hierarchy) (owner : BinaryName) (name : UnqualifiedName) :
    Except BytecodeError (Option (ClassDeclaration × FieldDeclaration)) :=
  hierarchy.search
    (fun _ declaration => (declaration.field? name).map (declaration, ·))
    parents [owner] []

end Hierarchy

end ClosureConversion
