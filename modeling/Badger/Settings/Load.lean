import Badger.Files
import Badger.Settings.Decode
import Badger.Yaml.Document

/-!
# Loading settings

## Main definitions

* `SettingsError`: why there are no settings, worded by `SettingsError.message`
* `Settings.ofText`: the settings that a text holds
* `Settings.source?`: the file to read them from
* `Settings.load`: the settings that are in force

## Design notes

Of the three places that can name a file only the last, a file of a fixed name in the
current directory, may be absent.
-/

namespace Badger

/-- **Why there are no settings.** `name` is the file, as it was named. -/
inductive SettingsError where
  | unopened (error : FileError)
  | unread (name : Text) (error : FileError)
  | malformed (name : Text) (m : Yaml.Malformed)
  | refused (name : Text) (r : Yaml.Refusal)
  | undecodable (name : Text) (issues : List DecodeIssue)
  | invalid (name : Text) (limits : List Limit)
deriving DecidableEq, Repr

/-- The wording of an error. -/
def SettingsError.message : SettingsError → Text
  | .unopened e => utf8 "config: open " ++ e.path ++ utf8 ": " ++ e.message
  | .unread name e => utf8 "config: parse " ++ name ++ utf8 ": yaml: input error: " ++ e.message
  | .malformed name m => utf8 "config: parse " ++ name ++ utf8 ": yaml: " ++ m.message
  | .refused name r => utf8 "config: parse " ++ name ++ utf8 ": yaml: " ++ r.message
  | .undecodable name issues =>
    utf8 "config: parse " ++ name ++ utf8 ": yaml: unmarshal errors:" ++
      (issues.map fun i => utf8 "\n  " ++ i.message).flatten
  | .invalid name limits =>
    utf8 "config: " ++ name ++ utf8 ": " ++ Text.join (utf8 "; ") (limits.map Limit.message)

namespace Settings

/-- Settings that may be used: their limits make sense, and the home directory is put in. -/
def checked (home name : Text) (s : Settings) : Except SettingsError Settings :=
  if s.faults.isEmpty then .ok (s.expandHome home) else .error (.invalid name s.faults)

/-- **The settings that a text holds**; `name` stands for the text in errors. A text
without a document leaves everything as it is for a user who chose nothing. -/
def ofText (home name text : Text) : Except SettingsError Settings :=
  match Yaml.Document.read text with
  | .error m => .error (.malformed name m)
  | .ok none => .ok (standard home)
  | .ok (some d) =>
    match (Decoder.settings d (standard home) d.root).run {} with
    | .error r => .error (.refused name r)
    | .ok (s, decoding) =>
      if decoding.issues.isEmpty then s.checked home name
      else .error (.undecodable name decoding.issues.reverse)

/-- The file of settings in the current directory. -/
def fileName : Text := utf8 "badger.yaml"

/-- The file to read settings from: the one asked for, else the one that the environment
names, else the one in the current directory if there is one. -/
def source? (fs : Files) (asked environment : Text) : Option Text :=
  if !asked.isEmpty then some asked
  else if !environment.isEmpty then some environment
  else if fs.exists? fileName then some fileName
  else none

/-- **The settings that are in force.** -/
def load (fs : Files) (home asked environment : Text) : Except SettingsError Settings :=
  match source? fs asked environment with
  | none => .ok (standard home)
  | some path =>
    match fs.open? path with
    | .error e => .error (.unopened e)
    | .ok .directory => .error (.unread path ⟨"read", path, .isDirectory⟩)
    | .ok (.file text) => ofText home path text

end Settings

end Badger
