import CodeSurvey.Text.Utf8

/-!
# Syntax trees

A node carries its kind, the name under which its parent finds it, its flags and the stretch of the
source it covers, in bytes and in rows counted from 0. A site is a node seen in its tree, with the
siblings before it and the node above it. Going down from a site leads to smaller trees; the type
`Below s` keeps the proof of that, so that recursions that go down are seen to end.
-/

namespace CodeSurvey

structure NodeInfo where
  kind : String
  field : String
  named : Bool
  isError : Bool
  isMissing : Bool
  hasError : Bool
  startByte : Nat
  endByte : Nat
  startRow : Nat
  endRow : Nat
  deriving Repr, DecidableEq

inductive Tree where
  | node (info : NodeInfo) (children : List Tree)
  deriving Repr

namespace Tree

def info : Tree → NodeInfo
  | node info _ => info

def children : Tree → List Tree
  | node _ children => children

mutual

def size : Tree → Nat
  | node _ children => sizes children + 1

def sizes : List Tree → Nat
  | [] => 0
  | t :: ts => t.size + sizes ts

end

theorem sizes_children_lt (t : Tree) : sizes t.children < t.size := by
  cases t with
  | node info children => simp [Tree.children, size]

end Tree

/-- A node seen in its tree: the siblings before it, nearest first, and the node above it. -/
inductive Site where
  | root (tree : Tree)
  | child (parent : Site) (before : List Tree) (tree : Tree)
  deriving Repr

namespace Site

def tree : Site → Tree
  | root tree => tree
  | child _ _ tree => tree

def info (s : Site) : NodeInfo := s.tree.info

def kind (s : Site) : String := s.info.kind

def size (s : Site) : Nat := s.tree.size

def parent? : Site → Option Site
  | root _ => none
  | child parent _ _ => some parent

def previous? : Site → Option Site
  | root _ => none
  | child _ [] _ => none
  | child parent (t :: before) _ => some (child parent before t)

def previousIn (parent : Site) : List Tree → List Site
  | [] => []
  | t :: before => child parent before t :: previousIn parent before

def allPrevious : Site → List Site
  | root _ => []
  | child parent before _ => previousIn parent before

def ancestors : Site → List Site
  | root _ => []
  | child parent _ _ => parent :: parent.ancestors

/-- The line on which the node starts, counted from 1. -/
def line (s : Site) : Nat := s.info.startRow + 1

def lastLine (s : Site) : Nat := s.info.endRow + 1

def text (source : String) (s : Site) : String :=
  Text.byteSlice s.info.startByte s.info.endByte source

/-- A site strictly further down. -/
structure Below (s : Site) where
  site : Site
  smaller : site.size < s.size

/-- Sites of the given children, after the siblings `before`. -/
def belowIn (s : Site) (before : List Tree) : (ts : List Tree) → Tree.sizes ts < s.size → List (Below s)
  | [], _ => []
  | t :: ts, h =>
    ⟨child s before t, Nat.lt_of_le_of_lt (Nat.le_add_right _ _) h⟩ ::
      belowIn s (t :: before) ts (Nat.lt_of_le_of_lt (Nat.le_add_left _ _) h)

theorem sizes_children_lt (s : Site) : Tree.sizes s.tree.children < s.size :=
  Tree.sizes_children_lt s.tree

def children (s : Site) : List (Below s) := belowIn s [] s.tree.children s.sizes_children_lt

def namedChildren (s : Site) : List (Below s) := s.children.filter (·.site.info.named)

/-- The first site below under a field name. -/
def field? (s : Site) (name : String) : Option (Below s) :=
  s.children.find? (·.site.info.field = name)

/-- The sites below under a field name. -/
def fields (s : Site) (name : String) : List (Below s) :=
  s.children.filter (·.site.info.field = name)

def child? (s : Site) (kind : String) : Option (Below s) := s.children.find? (·.site.kind = kind)

def childrenOf (s : Site) (kind : String) : List (Below s) := s.children.filter (·.site.kind = kind)

/-- The first site below under a field name, for looking only. -/
def fieldSite? (s : Site) (name : String) : Option Site := (s.field? name).map (·.site)

/-- The first site below of a kind, for looking only. -/
def childSite? (s : Site) (kind : String) : Option Site := (s.child? kind).map (·.site)

/-- The sites below of a kind, for looking only. -/
def sitesOf (s : Site) (kind : String) : List Site := (s.childrenOf kind).map (·.site)

/-- The sites of named nodes directly below, for looking only. -/
def namedSites (s : Site) : List Site := s.namedChildren.map (·.site)

def fieldText? (source : String) (s : Site) (name : String) : Option String :=
  (s.field? name).map (·.site.text source)

namespace Below

/-- What lies below a site lies below every site above it. -/
def lift {s : Site} (b : Below s) (c : Below b.site) : Below s :=
  ⟨c.site, Nat.lt_trans c.smaller b.smaller⟩

def children {s : Site} (b : Below s) : List (Below s) := b.site.children.map b.lift

def namedChildren {s : Site} (b : Below s) : List (Below s) := b.site.namedChildren.map b.lift

def field? {s : Site} (b : Below s) (name : String) : Option (Below s) :=
  (b.site.field? name).map b.lift

end Below

def sizes : List Site → Nat
  | [] => 0
  | s :: rest => s.size + sizes rest

theorem sizes_append (sites more : List Site) : sizes (sites ++ more) = sizes sites + sizes more := by
  induction sites with
  | nil => simp [sizes]
  | cons s rest ih => simp [sizes, ih, Nat.add_assoc]

theorem sizes_belowIn (s : Site) (before : List Tree) (ts : List Tree) (h : Tree.sizes ts < s.size) :
    sizes ((belowIn s before ts h).map (·.site)) = Tree.sizes ts := by
  induction ts generalizing before with
  | nil => rfl
  | cons t ts ih =>
    simp only [belowIn, List.map_cons, sizes, Tree.sizes, ih]
    rfl

/-- The children have together fewer nodes than the site. -/
theorem sizes_children (s : Site) : sizes (s.children.map (·.site)) < s.size := by
  rw [children, sizes_belowIn]
  exact s.sizes_children_lt

end Site

end CodeSurvey
