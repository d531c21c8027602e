import Courier.Integrity.Strategy
import Courier.Stream.Cells
import Courier.Text.Inspect

/-! # Execution attributes

Values of several types under names. A key fixes the type it reads and writes; a value of another
type under its name is not seen, and goes when the key removes it.
-/

namespace Courier

inductive AttributeValue
  | natural (n : Nat)
  | text (s : String)
  | flag (b : Bool)
  | kind (k : OperationKind)
  | settings (s : Integrity.Settings)
  | slot (s : Slot)
  deriving DecidableEq, Repr

structure AttributeKey (α : Type) where
  name : String
  wrap : α → AttributeValue
  unwrap? : AttributeValue → Option α
  unwrap_wrap : ∀ a, unwrap? (wrap a) = some a := by intro _; rfl

namespace AttributeKey

def natural (name : String) : AttributeKey Nat where
  name
  wrap := .natural
  unwrap? | .natural n => some n | _ => none

def text (name : String) : AttributeKey String where
  name
  wrap := .text
  unwrap? | .text s => some s | _ => none

def flag (name : String) : AttributeKey Bool where
  name
  wrap := .flag
  unwrap? | .flag b => some b | _ => none

def operationKind : AttributeKey OperationKind where
  name := "stratus.operation_kind"
  wrap := .kind
  unwrap? | .kind k => some k | _ => none

def settings : AttributeKey Integrity.Settings where
  name := "stratus.integrity_config"
  wrap := .settings
  unwrap? | .settings s => some s | _ => none

def trailingRequested : AttributeKey Bool :=
  flag "stratus.trailing_checksum_requested"

def uploadDigest : AttributeKey Slot where
  name := "stratus.upload_digest"
  wrap := .slot
  unwrap? | .slot s => some s | _ => none

def inspect {α : Type} (k : AttributeKey α) : String :=
  "AttributeKey(" ++ k.name ++ ")"

end AttributeKey

structure Attributes where
  entries : List (String × AttributeValue)
  deriving DecidableEq, Repr

namespace Attributes

variable {α : Type}

def empty : Attributes := ⟨[]⟩

instance : Inhabited Attributes := ⟨empty⟩

def lookup (a : Attributes) (name : String) : Option AttributeValue :=
  a.entries.lookup name

def erase (a : Attributes) (name : String) : Attributes :=
  ⟨a.entries.filter fun e => e.1 ≠ name⟩

def put (a : Attributes) (k : AttributeKey α) (value : α) : Attributes :=
  ⟨(k.name, k.wrap value) :: (a.erase k.name).entries⟩

def get? (a : Attributes) (k : AttributeKey α) : Option α :=
  (a.lookup k.name).bind k.unwrap?

/-- Takes out what is under the key's name; the value is given back if it is of the key's type. -/
def remove (a : Attributes) (k : AttributeKey α) : Option α × Attributes :=
  (a.get? k, a.erase k.name)

def contains (a : Attributes) (k : AttributeKey α) : Bool :=
  (a.lookup k.name).isSome

def size (a : Attributes) : Nat :=
  a.entries.length

/-- The names in alphabetical order. -/
def names (a : Attributes) : List String :=
  (a.entries.map (·.1)).mergeSort fun s t => !(t < s)

def inspect (a : Attributes) : String :=
  Inspect.record "ExecutionAttributes" [("keys", Inspect.list (a.names.map Inspect.text))]

@[simp]
theorem get?_put (a : Attributes) (k : AttributeKey α) (value : α) :
    (a.put k value).get? k = some value := by
  simp [put, get?, lookup, k.unwrap_wrap]

end Attributes

end Courier
