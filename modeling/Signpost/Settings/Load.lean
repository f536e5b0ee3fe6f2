import Signpost.Disk.Basic
import Signpost.Settings.Check
import Signpost.Settings.Document
import Signpost.Toml.Reader

namespace Signpost

inductive SettingsError where
  | io (cause : SystemError)
  | syntaxError
  | invalid (complaints : List Complaint)
  deriving DecidableEq, Repr

def SettingsError.message : SettingsError → String
  | io cause => s!"IO error: {cause.message}"
  | syntaxError => "Parse error"
  | invalid complaints => "Validation failed: " ++ ", ".intercalate (complaints.map Complaint.message)

namespace Settings

def ofToml (text : String) : Except SettingsError Settings :=
  match (Toml.ofText? text).bind (ofJson? .toml) with
  | none => .error .syntaxError
  | some s =>
    match s.check with
    | [] => .ok s
    | complaints => .error (.invalid complaints)

def load (d : Disk) (path : String) : Except SettingsError Settings :=
  match d.readText path with
  | .error e => .error (.io e)
  | .ok text => ofToml text

end Settings

end Signpost
