import BlockScript.Settings
import BlockScript.Yaml.Node.Read

/-! # Settings in a document

How settings are read from a YAML document. A mapping sets fields, and the mappings merged into it set what it leaves
open. Fields that are never set keep their default. -/

namespace BlockScript.Settings

inductive Target where
  | text
  | flag
  | settings
  deriving DecidableEq, Repr

def Target.name : Target → Bytes
  | .text => ascii "string"
  | .flag => ascii "bool"
  | .settings => ascii "internal.Config"

def excerpt (node : Yaml.Node) : Bytes :=
  let text := if node.text.length > 10 then node.text.take 7 ++ ascii "..." else node.text
  if node.tag = .seq || node.tag = .map then node.text else ascii " `" ++ text ++ ascii "`"

def misfit (node : Yaml.Node) (target : Target) : Complaint :=
  ⟨node.line, ascii "cannot unmarshal " ++ node.tag.text ++ excerpt node ++ ascii " into " ++ target.name⟩

/-- Keys that occur twice. Two collections count as the same key, and so do two references to one name. -/
def repeatedKeys : List (Yaml.Node × Yaml.Node) → List Complaint
  | [] => []
  | (key, _) :: rest =>
    let same := rest.filter fun (other, _) => other.shape = key.shape && other.text = key.text
    let complaints := same.map fun (other, _) =>
      (⟨other.line, ascii "mapping key " ++ Quoted.text other.text ++ ascii " already defined at line " ++
        Bytes.ofNat key.line⟩ : Complaint)
    complaints ++ repeatedKeys rest

structure Draft where
  settings : Settings
  complaints : List Complaint
  /-- The keys that a merged mapping must not set again; none outside of one. -/
  named : Option (List Bytes)
  /-- The references that are being followed, by the numbers of the nodes they stand for. -/
  within : List Nat
  visits : Nat
  followed : Nat

abbrev Drafting := StateT Draft Option

def complain (complaints : List Complaint) : Drafting Unit :=
  modify fun d => { d with complaints := d.complaints ++ complaints }

/-- Whether nearly all that has been read was read by following references. A large document may owe less of it to them
than a small one: up to 99 of 100 nodes in a document of up to 400000, down to one of 10 from 4000000 on. -/
def Draft.isInflated (d : Draft) : Bool :=
  let excessive :=
    if d.visits ≤ 400000 then 99 * d.visits < 100 * d.followed
    else if 4000000 ≤ d.visits then d.visits < 10 * d.followed
    else (99 * 3600000 - 89 * (d.visits - 400000)) * d.visits < 360000000 * d.followed
  100 < d.followed && 1000 < d.visits && excessive

def visit : Drafting Unit := do
  modify fun d => { d with visits := d.visits + 1, followed := if d.within.isEmpty then d.followed else d.followed + 1 }
  if (← get).isInflated then failure

def visiting {α : Type} (doc : Yaml.Document) (node : Yaml.Node) (read : Yaml.Node → Drafting α) : Drafting α := do
  visit
  match node with
  | .reference _ number _ =>
    let outer := (← get).within
    if number ∈ outer then failure
    else
      modify fun d => { d with within := number :: outer }
      visit
      let result ← read (← doc.get? number)
      modify fun d => { d with within := outer }
      return result
  | node => read node

def misfits (node : Yaml.Node) (target : Target) : List Complaint :=
  match node with
  | .mapping entries _ _ =>
    match repeatedKeys entries with
    | [] => [misfit node target]
    | complaints => complaints
  | _ => [misfit node target]

def readScalar {α : Type} (doc : Yaml.Document) (target : Target) (convert : Bytes → Yaml.ScalarValue → Option α)
    (node : Yaml.Node) : Drafting (Option α) :=
  visiting doc node fun node => do
    let value? : Option (Option α) ← match node with
      | .scalar text tag _ => do
        match ← Yaml.scalarValue? text tag with
        | .null => pure (some none)
        | value => pure ((convert text value).map some)
      | _ => pure none
    match value? with
    | some value => return value
    | none =>
      complain (misfits node target)
      return none

def onWords : List Bytes :=
  [ascii "y", ascii "Y", ascii "yes", ascii "Yes", ascii "YES", ascii "on", ascii "On", ascii "ON"]

def offWords : List Bytes :=
  [ascii "n", ascii "N", ascii "no", ascii "No", ascii "NO", ascii "off", ascii "Off", ascii "OFF"]

def flag? : Yaml.ScalarValue → Option Bool
  | .bool value => some value
  | .text text => if onWords.contains text then some true else if offWords.contains text then some false else none
  | _ => none

/-- A scalar of any type is a text as it is written, except for one that encodes a text. -/
def textOf (written : Bytes) : Yaml.ScalarValue → Bytes
  | .text text => text
  | _ => written

def readText (doc : Yaml.Document) (node : Yaml.Node) : Drafting (Option Bytes) :=
  readScalar doc .text (fun written value => some (textOf written value)) node

def readFlag (doc : Yaml.Document) (node : Yaml.Node) : Drafting (Option Bool) :=
  readScalar doc .flag (fun _ value => flag? value) node

def fields : List Bytes := [ascii "line_terminator", ascii "log_level", ascii "color"]

def readField (doc : Yaml.Document) (name : Bytes) (value : Yaml.Node) : Drafting Unit := do
  if name = ascii "line_terminator" then
    let text? ← readText doc value
    modify fun d => { d with settings := { d.settings with lineTerminator := text?.getD d.settings.lineTerminator } }
  else if name = ascii "log_level" then
    let text? ← readText doc value
    modify fun d => { d with settings := { d.settings with logLevel := text?.getD d.settings.logLevel } }
  else
    let flag? ← readFlag doc value
    modify fun d => { d with settings := { d.settings with color := flag?.getD d.settings.color } }

def claim (name : Bytes) : Drafting Bool := do
  match (← get).named with
  | none => return true
  | some names =>
    if names.contains name then return false
    else
      modify fun d => { d with named := some (name :: names) }
      return true

def isMerge (key : Yaml.Node) : Bool := key.shape = .scalar && key.text = ascii "<<" && key.tag = .merge

/-- Reads the entries of a mapping except for the merged one, whose value is given back. The fields `done` have been set
by this mapping. -/
def readEntries (doc : Yaml.Document) :
    (done : List Bytes) → List (Yaml.Node × Yaml.Node) → Drafting (Option Yaml.Node)
  | _, [] => return none
  | done, (key, value) :: rest => do
    if isMerge key then
      let later ← readEntries doc done rest
      return later <|> some value
    else
      let wrong (text : Bytes) : Drafting Unit :=
        complain [⟨key.line, ascii "field " ++ text ++ ascii " in type internal.Config"⟩]
      match ← readText doc key with
      | none => readEntries doc done rest
      | some name =>
        if !(← claim name) then readEntries doc done rest
        else if !fields.contains name then
          wrong (name ++ ascii " not found")
          readEntries doc done rest
        else if done.contains name then
          wrong (name ++ ascii " already set")
          readEntries doc done rest
        else
          readField doc name value
          readEntries doc (name :: done) rest

def textKeys (doc : Yaml.Document) : List (Yaml.Node × Yaml.Node) → Drafting (List Bytes)
  | [] => return []
  | (key, _) :: rest => do
    let own ← visiting doc key fun key => do
      match key with
      | .scalar text tag _ =>
        match ← Yaml.scalarValue? text tag with
        | .text text => return [text]
        | _ => return []
      | .mapping entries _ _ =>
        complain (repeatedKeys entries)
        return []
      | _ => return []
    return own ++ (← textKeys doc rest)

def mergedNodes : Yaml.Node → List Yaml.Node
  | .sequence items _ _ => items
  | node => [node]

/-- Reads a mapping of settings, and then the mappings merged into it, which set what it leaves open. `bound` limits how
deep mergers are nested. -/
def readMapping (doc : Yaml.Document) : (bound : Nat) → Yaml.Node → Drafting Unit
  | bound + 1, .mapping entries _ _ => do
    match repeatedKeys entries with
    | [] =>
      match ← readEntries doc [] entries with
      | none => return ()
      | some source =>
        let outermost := (← get).named.isNone
        if outermost then
          let names ← textKeys doc entries
          modify fun d => { d with named := some names }
        for node in mergedNodes source do
          visiting doc node (readMapping doc bound)
        if outermost then modify fun d => { d with named := none }
    | complaints => complain complaints
  | _, _ => failure

/-- Reads a whole document. No reference is followed inside of what it stands for, so its bound exceeds the depth. -/
def readDocument (doc : Yaml.Document) : Drafting Unit := do
  visit
  match doc.root with
  | .mapping .. => visiting doc doc.root (readMapping doc ((doc.anchored.length + 1) * doc.bound))
  | root => discard (readScalar doc .settings (fun _ _ => (none : Option Unit)) root)

def ofYaml (text : Bytes) : Except SettingsError Settings :=
  match Yaml.document? text with
  | none => .error .malformed
  | some none => default.validate
  | some (some doc) =>
    match (readDocument doc).run ⟨default, [], none, [], 0, 0⟩ with
    | none => .error .malformed
    | some (_, draft) => if draft.complaints.isEmpty then draft.settings.validate else .error (.misfits draft.complaints)

end BlockScript.Settings
