import CodeSurvey.Model.Element
import CodeSurvey.Model.Failure
import CodeSurvey.Model.Finding
import CodeSurvey.Model.Relation
import CodeSurvey.Text.Search

/-!
# Reports

A report is all that a survey of one file gives: elements, relations and findings in the order in
which they were met, and the texts of what went wrong. The survey succeeded when nothing did.
-/

namespace CodeSurvey

/-- The result of surveying one file. -/
structure Report where
  filePath : String := ""
  elements : List Element := []
  relations : List Relation := []
  findings : List Finding := []
  errors : List String := []
  deriving Repr

namespace Report

def failed (path message : String) : Report := { filePath := path, errors := [message] }

def success (r : Report) : Bool := r.errors.isEmpty

def addError (r : Report) (message : String) : Report := { r with errors := r.errors ++ [message] }

def fail (r : Report) (f : Failure) : Report := r.addError f.message

def addElement (r : Report) (e : Element) : Report := { r with elements := r.elements ++ [e] }

def addRelation (r : Report) (rel : Relation) : Report := { r with relations := r.relations ++ [rel] }

def addFindings (r : Report) (fs : List Finding) : Report := { r with findings := r.findings ++ fs }

/-- Appends all of another report but its path. -/
def merge (r other : Report) : Report :=
  { r with
    elements := r.elements ++ other.elements
    relations := r.relations ++ other.relations
    findings := r.findings ++ other.findings
    errors := r.errors ++ other.errors }

def fileElement? (r : Report) : Option Element := r.elements.find? (·.kind = .file)

/-- Changes the first item that satisfies a condition. -/
def modifyFirst {α : Type} (p : α → Bool) (f : α → α) : List α → List α
  | [] => []
  | x :: xs => if p x then f x :: xs else x :: modifyFirst p f xs

def updateFile (r : Report) (f : Declaration → Declaration) : Report :=
  { r with elements := modifyFirst (·.kind = .file) (·.update f) r.elements }

def element? (r : Report) (name : String) : Option Element := r.elements.find? (·.name = name)

def elementsOf (r : Report) (kind : ElementKind) : List Element := r.elements.filter (·.kind = kind)

def relationsOf (r : Report) (kind : RelationKind) : List Relation :=
  r.relations.filter (·.kind = kind)

def relates (r : Report) (source target : String) (kind : RelationKind) : Bool :=
  r.relations.any fun rel => rel.kind = kind && rel.source = source && rel.target = target

def findingsNamed (r : Report) (name : String) : List Finding := r.findings.filter (·.name = name)

def swap (old new s : String) : String := if s = old then new else s

/-- Gives the report another path. Names, ends of relations and paths equal to the old one follow,
and so does every mention of it in an error. -/
def relocate (r : Report) (old new : String) : Report :=
  if old = new then r
  else
    { filePath := new
      elements := r.elements.map fun e =>
        { e with filePath := swap old new e.filePath, name := swap old new e.name }
      relations := r.relations.map fun rel =>
        { rel with source := swap old new rel.source, target := swap old new rel.target }
      findings := r.findings.map fun f => { f with filePath := swap old new f.filePath }
      errors := r.errors.map (Text.replace old new) }

/-- Copies the findings into the metadata of the file's element. -/
def attachFindings (r : Report) : Report :=
  r.updateFile (·.note "detected_patterns" (.arr (r.findings.map Finding.toMetadata)))

def toJson (r : Report) : Json :=
  Json.ofFields [
    ("file_path", .str r.filePath), ("elements", .arr (r.elements.map Element.toJson)),
    ("relationships", .arr (r.relations.map Relation.toJson)),
    ("patterns", .arr (r.findings.map Finding.toJson)), ("errors", .strings r.errors),
    ("success", .bool r.success)]

/-! ## Statistics -/

def countElements (r : Report) (kind : ElementKind) : Nat := (r.elementsOf kind).length

def countRelations (r : Report) (kind : RelationKind) : Nat := (r.relationsOf kind).length

def padEnd (width : Nat) (s : String) : String :=
  s ++ String.ofList (List.replicate (width - s.length) ' ')

/-- A line with a name and a count, nothing for a count of zero. -/
def countLine (width : Nat) (name : String) (count : Nat) : String :=
  if count = 0 then "" else "  " ++ padEnd width name ++ " " ++ Decimal.digitText count ++ "\n"

def statistics (r : Report) : String :=
  "Elements:\n" ++
    String.join (ElementKind.all.map fun k => countLine 10 k.title (r.countElements k)) ++
    "Relationships:\n" ++
    String.join (RelationKind.all.map fun k => countLine 14 k.title (r.countRelations k)) ++
    "Patterns: " ++ Decimal.digitText (r.findings.filter (·.isPositive)).length ++ " positive, " ++
    Decimal.digitText (r.findings.filter (!·.isPositive)).length ++ " negative\n" ++
    (if r.errors.isEmpty then "" else "Errors: " ++ Decimal.digitText r.errors.length ++ "\n")

end Report

end CodeSurvey
