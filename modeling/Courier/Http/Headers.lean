import Courier.Text.Blank
import Courier.Text.Fold
import Courier.Text.Numeral
import Courier.Word

/-! # Header fields

An ordered list of names and values. Names are compared without regard to ASCII case and keep the
spelling they were written with; a name may stand more than once.
-/

namespace Courier

structure Headers where
  entries : List (String × String)
  deriving DecidableEq, Repr

namespace Headers

def contentLength : String := "Content-Length"
def contentType : String := "Content-Type"
def contentMd5 : String := "Content-MD5"
def connection : String := "Connection"
def entityTag : String := "ETag"
def host : String := "Host"
def range : String := "Range"
def transferEncoding : String := "Transfer-Encoding"

def empty : Headers := ⟨[]⟩

instance : Inhabited Headers := ⟨empty⟩

def size (h : Headers) : Nat :=
  h.entries.length

def isEmpty (h : Headers) : Bool :=
  h.entries.isEmpty

def named (name : String) (entry : String × String) : Bool :=
  Text.sameFold entry.1 name

def append (h : Headers) (name value : String) : Headers :=
  ⟨h.entries ++ [(name, value)]⟩

def all (h : Headers) (name : String) : List String :=
  (h.entries.filter (named name)).map (·.2)

def first? (h : Headers) (name : String) : Option String :=
  (h.entries.find? (named name)).map (·.2)

def contains (h : Headers) (name : String) : Bool :=
  h.entries.any (named name)

/-- The entry in the place of the first one of its name, at the end if there is none, and no other
entry of that name. -/
def inserted (name value : String) : List (String × String) → List (String × String)
  | [] => [(name, value)]
  | e :: r =>
    if named name e then (name, value) :: r.filter (fun d => !named name d)
    else e :: inserted name value r

/-- Makes the value the only one of its name. -/
def insert (h : Headers) (name value : String) : Headers :=
  ⟨inserted name value h.entries⟩

/-- The values of the name, and the headers without them. -/
def remove (h : Headers) (name : String) : List String × Headers :=
  (h.all name, ⟨h.entries.filter fun e => !named name e⟩)

/-- Is the first value of the name this one, but for white space around it and for case? -/
def firstMatches (h : Headers) (name value : String) : Bool :=
  match h.first? name with
  | some v => Text.sameFold (Text.trim v) value
  | none => false

/-- The length the first Content-Length declares, below 2⁶⁴. -/
def declaredLength? (h : Headers) : Option Nat :=
  (h.first? contentLength).bind fun v => Text.decimal? (wordSize 64) (Text.trim v)

def ofList (entries : List (String × String)) : Headers :=
  ⟨entries⟩

end Headers

end Courier
