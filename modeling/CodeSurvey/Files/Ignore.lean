import CodeSurvey.Config.Settings
import CodeSurvey.Files.FileSystem
import CodeSurvey.Regex.Search

/-!
# Ignore files

A rule of an ignore file is a pattern for paths below its directory. A rule with a slash at its
start or inside is matched from that directory on, any other at every depth; a slash at the end asks
for a directory, and an exclamation mark in front keeps what an earlier rule ignores. Of the rules
of one file the last that matches counts, and the file of the nearest directory counts first. Ignore
files of a repository count only up to its top directory.
-/

namespace CodeSurvey

/-- A piece of a pattern for paths. -/
inductive GlobPart where
  | char (c : Char)
  /-- Any character but a slash. -/
  | one
  /-- Any number of characters but slashes. -/
  | many
  /-- Any number of directories between two slashes. -/
  | between
  deriving Repr, DecidableEq

namespace GlobPart

def ofChars : List Char → List GlobPart
  | [] => []
  | '/' :: '*' :: '*' :: '/' :: cs => between :: ofChars cs
  | '*' :: cs => many :: ofChars cs
  | '?' :: cs => one :: ofChars cs
  | '\\' :: c :: cs => char c :: ofChars cs
  | c :: cs => char c :: ofChars cs

def shape : GlobPart → Regex
  | char c => .lit (String.singleton c)
  | one => .set (.notChars "/")
  | many => .many (.set (.notChars "/"))
  | between => .any [.lit "/", .all [.lit "/", .many (.set .always), .lit "/"]]

end GlobPart

/-- What a pattern matches; `**/` at its start stands for any number of directories. -/
def globShape (pattern : String) : Regex :=
  let (deep, rest) :=
    match Text.afterStart? "**/" pattern with
    | some rest => (true, rest)
    | none => (false, pattern)
  let above : List Regex := if deep then [.opt (.all [.many (.set .always), .lit "/"])] else []
  .all ([.start] ++ above ++ (GlobPart.ofChars rest.toList).map GlobPart.shape ++ [.stop])

structure IgnoreRule where
  shape : Regex
  keeps : Bool
  onlyDirectories : Bool

namespace IgnoreRule

/-- The pattern of a rule made explicit: at every depth unless it is anchored or has a slash, and
inside a directory only where it ends in a double star. -/
def fullPattern (anchored : Bool) (pattern : String) : String :=
  let free := !anchored && !Text.contains "/" pattern && pattern != "**"
  let pattern := if free then "**/" ++ pattern else pattern
  if Text.endsWith "/**" pattern then pattern ++ "/*" else pattern

/-- Reads a line of an ignore file; blank lines and comments are no rules. -/
def ofLine? (line : String) : Option IgnoreRule :=
  if Text.startsWith "#" line then none
  else
    let line := if Text.endsWith "\\ " line then line else Text.trimEnd line
    if line.isEmpty then none
    else
      let keeps := Text.startsWith "!" line
      let line := Text.withoutStart "!" line
      let anchored := Text.startsWith "/" line
      let line := Text.withoutStart "/" line
      let onlyDirectories := Text.endsWith "/" line
      let line := Text.withoutEnd "/" line
      some ⟨globShape (fullPattern anchored line), keeps, onlyDirectories⟩

end IgnoreRule

/-- Whether rules ignore or keep a path; none where no rule matches. -/
inductive Verdict where
  | ignored
  | kept
  deriving Repr, DecidableEq

/-- What the rules of one file say of a path below their directory. -/
def verdictOf (rules : List IgnoreRule) (path : String) (isDirectory : Bool) : Option Verdict :=
  (rules.reverse.find? fun r => (!r.onlyDirectories || isDirectory) && r.shape.isMatch path).map
    fun r => if r.keeps then .kept else .ignored

namespace FileSystem

/-- The rules of an ignore file below a directory; a byte order mark at its start does not count. -/
def ignoreRules (fs : FileSystem) (directory : Location) (file : List String) : List IgnoreRule :=
  match fs.entries.lookup { directory with names := directory.names ++ file } with
  | some (.file bytes _) =>
    let text := String.ofList (Text.withoutMark (Text.decodeLossy bytes).toList)
    (Text.lines text).filterMap IgnoreRule.ofLine?
  | _ => []

/-- The directories around a location, nearest first. -/
def around (l : Location) : List Location :=
  (List.range l.names.length).reverse.map fun n => { l with names := l.names.take n }

def isTop (fs : FileSystem) (directory : Location) : Bool :=
  (fs.entries.lookup { directory with names := directory.names ++ [".git"] }).isSome

/-- The directories around a location up to the top of its repository; none outside of one. -/
def aroundInRepository (fs : FileSystem) (l : Location) : List Location :=
  let all := around l
  match all.dropWhile fun d => !fs.isTop d with
  | [] => []
  | top :: _ => all.takeWhile (fun d => !fs.isTop d) ++ [top]

/-- What the ignore files of a name say of a location, the nearest that says anything. -/
def verdictIn (fs : FileSystem) (directories : List Location) (file : List String) (l : Location)
    (isDirectory : Bool) : Option Verdict :=
  directories.findSome? fun d =>
    verdictOf (fs.ignoreRules d file)
      (String.intercalate "/" (l.names.drop d.names.length)) isDirectory

def verdict (fs : FileSystem) (l : Location) (isDirectory : Bool) : Option Verdict :=
  let own := fs.aroundInRepository l
  ((fs.verdictIn (around l) [".ignore"] l isDirectory).or
    (fs.verdictIn own [".gitignore"] l isDirectory)).or
      (fs.verdictIn own [".git", "info", "exclude"] l isDirectory)

/-- Whether an entry is scanned: it is not ignored, not hidden unless hidden entries count or a rule
keeps it, and no directory that is passed over. -/
def isScanned (fs : FileSystem) (settings : ScanSettings) (l : Location) (isDirectory : Bool) : Bool :=
  let name := l.names.getLast?.getD ""
  let visible :=
    match fs.verdict l isDirectory with
    | some .ignored => false
    | some .kept => true
    | none => settings.includeHidden || !Text.startsWith "." name
  visible && !(isDirectory && settings.excludedDirs.contains name)

/-- The files scanned below a directory with their entries: all directories on the way to them are
scanned too. -/
def scannedFiles (fs : FileSystem) (settings : ScanSettings) (root : Location) :
    List (List String × Entry) :=
  fs.entries.filterMap fun (l, e) =>
    let depth := root.names.length
    let below := l.names.drop depth
    let inside := l.rooted = root.rooted && root.names.isPrefixOf l.names && !below.isEmpty
    match e with
    | .directory => none
    | .file _ _ =>
      let scanned := inside && fs.isScanned settings l false &&
        (List.range (below.length - 1)).all fun n =>
          fs.isScanned settings { l with names := l.names.take (depth + n + 1) } true
      if scanned then some (below, e) else none

end FileSystem

end CodeSurvey
