import Assay.Text.Raw
import Assay.Text.Split

/-!
# Paths as texts

Labels, log lines and commands show paths the way they were written, so a path keeps its text, as raw as it is,
and is only taken apart where two paths are compared or one is put behind the other. What a path leads to is
a question for `Files`.
-/

namespace Assay

/-- A path as it was written. Two paths with different texts are different even where they name the
same file. -/
structure Path where
  text : RawText
deriving DecidableEq, Repr, Inhabited

namespace Path

/-- The text a path is shown as. It leads to the same place only where the path is a text itself. -/
def shown (path : Path) : String := path.text.lossy

/-- A slash. -/
def separator : UInt8 := 0x2F

inductive Component
  | root
  | here
  | up
  | name (text : RawText)
deriving DecidableEq, Repr

def isAbsolute (path : Path) : Bool :=
  path.text.bytes.head? = some separator

def endsInSeparator (path : Path) : Bool :=
  path.text.bytes.getLast? = some separator

/-- The pieces between separators, empty ones left out. -/
def segments (path : Path) : List RawText :=
  ((Text.splitAll separator path.text.bytes).filter (!·.isEmpty)).map RawText.mk

/-- The names that a path is walked by. A separator at its end asks for a directory. -/
def way (path : Path) : List RawText :=
  path.segments ++ (if path.endsInSeparator then [("." : RawText)] else [])

def Component.ofSegment (segment : RawText) : Component :=
  if segment = "." then .here else if segment = ".." then .up else .name segment

/-- A `.` counts only at the start of a relative path; repeated and trailing separators never count. -/
def components (path : Path) : List Component :=
  let named := path.segments.map Component.ofSegment
  if path.isAbsolute then
    .root :: named.filter (· ≠ .here)
  else
    match named with
    | .here :: rest => .here :: rest.filter (· ≠ .here)
    | _ => named.filter (· ≠ .here)

def Component.text : Component → RawText
  | root => "/"
  | here => "."
  | up => ".."
  | name text => text

/-- An absolute `other` replaces `base`; otherwise one separator stands between the two, unless `base`
is empty or brings its own. -/
def join (base other : Path) : Path :=
  if other.isAbsolute then other
  else if base.text.isEmpty || base.endsInSeparator then ⟨base.text ++ other.text⟩
  else ⟨base.text ++ "/" ++ other.text⟩

def ofComponents (components : List Component) : Path :=
  components.foldl (fun path component => path.join ⟨component.text⟩) ⟨""⟩

def fileName? (path : Path) : Option RawText :=
  match path.components.getLast? with
  | some (.name text) => some text
  | _ => none

/-- The path without its last component; the root and the empty path have none. -/
def parent? (path : Path) : Option Path :=
  match path.components.getLast? with
  | none | some .root => none
  | some _ => some (ofComponents path.components.dropLast)

/-- The components of `path` begin with those of `base`. -/
def startsWith (path base : Path) : Bool :=
  base.components.isPrefixOf path.components

/-- `path` seen from the absolute path `directory`, without `.` components. Two leading separators
stay two, a trailing one stays, and `..` is kept. -/
def absolute (path directory : Path) : Path :=
  let named := path.components.filter (fun component => component ≠ .here ∧ component ≠ .root)
  let doubled := path.text.bytes.take 2 = [separator, separator] ∧ path.text.bytes.take 3 ≠ [separator, separator, separator]
  let start : Path := if path.isAbsolute then ⟨if doubled then "//" else "/"⟩ else directory
  let whole := named.foldl (fun whole component => whole.join ⟨component.text⟩) start
  if path.endsInSeparator then whole.join ⟨""⟩ else whole

end Path

end Assay
