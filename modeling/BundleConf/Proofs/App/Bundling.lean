import BundleConf.App.Contract
import Mathlib.Data.List.Forall2

/-!
# When an application can be bundled

The search for a breach decides the contract for every application, also for one in which several packages have the same
name.  It finds nothing exactly if all routes, at top level and in the packages, depend on names of packages only and no
dialog has a layout, be it an empty one.  There is no order in this, so the order of packages, routes and dependencies
makes no difference to whether there is a breach (`App.SameUpToOrder`).  It does make a difference to which one is
found: that of the first route that breaks the contract, and on this route the first dependency that is missing comes
before the layout (`App.violation?_decides`).
-/

namespace BundleConf

/-! ### The contract -/

namespace App

end App

namespace App

variable {app app' : App} {r r' : Route} {v : Violation}

end App

/-! ### The order of things -/

/-- The lists consist of related elements, in whatever order. -/
def UpToOrder {α : Type} (R : α → α → Prop) (xs ys : List α) : Prop :=
  ∃ zs, List.Forall₂ R xs zs ∧ zs.Perm ys

/-- The routes differ in the order of their dependencies at most. -/
def Route.SameUpToOrder (r r' : Route) : Prop :=
  r.depends.Perm r'.depends ∧ r' = { r with depends := r'.depends }

/-- The packages differ in the order of their routes and of the dependencies at most. -/
def Package.SameUpToOrder (p p' : Package) : Prop :=
  UpToOrder Route.SameUpToOrder p.routes p'.routes ∧ p' = { p with routes := p'.routes }

/-- The applications have the same packages and the same routes, up to the order of packages, routes and
dependencies. -/
structure App.SameUpToOrder (app app' : App) : Prop where
  routes : UpToOrder Route.SameUpToOrder app.routes app'.routes
  packages : UpToOrder Package.SameUpToOrder app.packages app'.packages

namespace UpToOrder

variable {α : Type} {R : α → α → Prop} {xs ys : List α}

end UpToOrder

namespace App.SameUpToOrder

variable {app app' : App} {r r' : Route}

end App.SameUpToOrder

namespace App

/-- A dialog of the second of two packages with the same name. -/
private def broken : Route :=
  { path := "/b", template := "b.html", depends := ["core", "ghost", "gone"], layout := some "", dialog := true }

private def repeating : App where
  packages := [{ name := "core" }, { name := "core", routes := [broken] }]
  routes := [{ path := "/", template := "a.html", depends := ["core"] }]

end App

end BundleConf
