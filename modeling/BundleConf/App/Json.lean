import BundleConf.App.Basic
import BundleConf.Json.Block

/-!
# Applications in JSON

How a declared application is handed to a bundler: as one JSON object whose members follow the declaration tree.
-/

namespace BundleConf

/-- A list of names. -/
private def names (texts : List String) : Json.Block :=
  Json.array (texts.map Json.string)

def Route.json (r : Route) : Json.Block :=
  Json.object [
    ("path", Json.string r.path),
    ("template", Json.string r.template),
    ("depends", names r.depends),
    ("layout", (r.layout.map Json.string).getD Json.null),
    ("error404", Json.bool r.error404),
    ("index", Json.bool r.index),
    ("private", Json.bool r.isPrivate),
    ("dialog", Json.bool r.dialog)]

def Package.json (p : Package) : Json.Block :=
  Json.object [
    ("name", Json.string p.name),
    ("requires", names p.requires),
    ("directories", names p.directories),
    ("files", names p.files),
    ("options", names p.options),
    ("routes", Json.array (p.routes.map Route.json))]

def Ui.json (ui : Ui) : Json.Block :=
  Json.object [
    ("template", names ui.template),
    ("assets", names ui.assets),
    ("javascript", names ui.javascript),
    ("stylesheets", names ui.stylesheets)]

def App.json (app : App) : Json.Block :=
  Json.object [
    ("packages", Json.array (app.packages.map Package.json)),
    ("routes", Json.array (app.routes.map Route.json)),
    ("ui", app.ui.json),
    ("middlewares", names app.middlewares)]

end BundleConf
