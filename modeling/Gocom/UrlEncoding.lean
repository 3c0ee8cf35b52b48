import Gocom.GoMaps
import Gocom.GoStructs
import Gocom.NumberTexts
import Gocom.QueryTexts

/-!
# Forms in URL encoding

A struct is written as pairs of a name and an escaped text, one for each direct field, and read
back from such pairs. What is written for a field depends on its type, what is read on its kind.
Fields of other kinds than those of texts, numbers and truth values are written empty and not read.
-/

namespace Gocom

/-- The name of the predeclared type of a kind. -/
def NumKind.typeName : NumKind → String
  | int => "int" | int8 => "int8" | int16 => "int16" | int32 => "int32" | int64 => "int64"
  | uint => "uint" | uint8 => "uint8" | uint16 => "uint16" | uint32 => "uint32" | uint64 => "uint64"
  | float32 => "float32" | float64 => "float64"

namespace UrlEncoding

variable {α : Type*}

/-- What a field holds; nothing is known of the values of other kinds. -/
inductive Content (α : Type*) where
  | int (kind : NumKind) (n : ℤ)
  | float (kind : NumKind) (bits : ℕ)
  | string (s : Bytes)
  | bool (b : Bool)
  | other (x : α)
  deriving DecidableEq

structure FormField (α : Type*) where
  decl : FieldDecl
  content : Content α
  deriving DecidableEq

def formTag (d : FieldDecl) : Bytes := d.tag "form"

/-- The name of a field in a form: its tag up to a comma, or its own name with a small letter. -/
def formName (d : FieldDecl) : Bytes :=
  if formTag d = [] then
    match d.name with
    | [] => []
    | b :: rest => lowerByte b ++ rest
  else (splitN2 (formTag d) 44).1

/-! ## Writing -/

def isOmitempty (d : FieldDecl) : Bool := asciiBytes ",omitempty" <:+ formTag d

-- `strconv.FormatFloat` and `strconv.ParseFloat`
variable (texts : FloatTexts)

/-- The text of a field. `ToString` knows the predeclared types only. -/
def fieldText (p : FormField α) : Bytes :=
  match p.content with
  | .int kind n => if p.decl.typeName = kind.typeName then decimal n else []
  | .string s => s
  | .bool b =>
    if p.decl.typeName = "bool" then asciiBytes (if b then "true" else "false") else []
  | .float kind bits => if p.decl.typeName = kind.typeName then texts.format kind bits else []
  | .other _ => []

/-- Whether the value is taken out of the field, which only exported fields allow. -/
def Content.isTakenOut : Content α → Bool
  | int _ _ | bool _ | float _ _ => true
  | string _ | other _ => false

/-- The pair of a field, if one is written; no result for a panic. -/
def marshalField (p : FormField α) : Option (Option Bytes) :=
  if formTag p.decl = asciiBytes "-" then some none
  else if p.content.isTakenOut ∧ ¬ p.decl.exported then none
  else if isOmitempty p.decl ∧ fieldText texts p = [] then some none
  else some (some (formName p.decl ++ asciiBytes "=" ++ queryEscape (fieldText texts p)))

def marshalURLEncode (fields : List (FormField α)) : Option Bytes :=
  (fields.mapM (marshalField texts)).map fun pieces => join pieces.reduceOption "&"

/-! ## Reading -/

def ampersand : UInt8 := 38

def equalsSign : UInt8 := 61

/-- `utils.URLDecode`. -/
def urlDecode (val : Bytes) : Bytes := (queryUnescape val).getD val

theorem urlDecode_queryEscape (s : Bytes) : urlDecode (queryEscape s) = s := by
  rw [urlDecode, queryUnescape_queryEscape, Option.getD_some]

def pieceName (paramPiece : Bytes) : Bytes := (paramPiece.splitOn equalsSign).headD []

def pieceValue (paramPiece : Bytes) : Bytes :=
  match paramPiece.splitOn equalsSign with
  | _ :: val :: _ => urlDecode val
  | _ => []

/-- The map with the values of one more pair. -/
def addPiece (values : GoMap Bytes (List Bytes)) (paramPiece : Bytes) : GoMap Bytes (List Bytes) :=
  match values (pieceName paramPiece) with
  | some vals => values.store (pieceName paramPiece) (vals ++ [pieceValue paramPiece])
  | none => values.store (pieceName paramPiece) [pieceValue paramPiece]

def readValues (buffer : Bytes) : GoMap Bytes (List Bytes) :=
  (buffer.splitOn ampersand).foldl addPiece .empty

/-- What ends the reading early. -/
inductive Stop where
  | error (message : Bytes)
  | panic
  deriving DecidableEq

def cannotUnmarshal (name val : Bytes) (type : String) : Bytes :=
  asciiBytes "Cannot unmarshal field " ++ name ++ asciiBytes " value " ++ val ++
    asciiBytes (" as " ++ type ++ " type")

/-- Only exported fields can be set. -/
def setContent (d : FieldDecl) (c : Content α) : Except Stop (Content α) :=
  if d.exported then .ok c else .error .panic

/-- A field after its text was read. -/
def readContent (d : FieldDecl) (val : Bytes) : Content α → Except Stop (Content α)
  | .int kind _ =>
    match kind.parse val with
    | .error _ =>
      .error (.error (cannotUnmarshal (formName d) val
        (if kind.isUnsigned then "unsigned integer" else "integer")))
    | .ok iv => setContent d (.int kind (kind.wrap iv))
  | .string _ => setContent d (.string val)
  | .bool _ => setContent d (.bool (toBoolean val))
  | .float kind _ =>
    match texts.parse 64 val with
    | .error _ => .error (.error (cannotUnmarshal (formName d) val "float"))
    | .ok fv => setContent d (.float kind (texts.wrap kind fv))
  | .other x => .ok (.other x)

def unmarshalField (values : GoMap Bytes (List Bytes)) (p : FormField α) :
    Except Stop (Content α) :=
  match values (formName p.decl) with
  | none => .ok p.content
  | some vals => readContent texts p.decl (vals.headD []) p.content

/-- The loop over the fields: the fields afterwards, and what ended it early. -/
def unmarshalFields (values : GoMap Bytes (List Bytes)) :
    List (FormField α) → List (FormField α) × Option Stop
  | [] => ([], none)
  | p :: rest =>
    match unmarshalField texts values p with
    | .error stop => (p :: rest, some stop)
    | .ok c =>
      let (rest, stop) := unmarshalFields values rest
      (⟨p.decl, c⟩ :: rest, stop)

def unmarshalURLEncode (buffer : Bytes) (fields : List (FormField α)) :
    List (FormField α) × Option Stop :=
  unmarshalFields texts (readValues buffer) fields

/-! ## Values -/

/-- The text under a name: that of the first pair. -/
def valueOf (buffer name : Bytes) : Option Bytes :=
  ((buffer.splitOn ampersand).find? fun piece => pieceName piece = name).map pieceValue

theorem addPiece_eq (values : GoMap Bytes (List Bytes)) (piece : Bytes) :
    addPiece values piece = values.appendTo (pieceName piece) (pieceValue piece) := by
  rw [addPiece, GoMap.appendTo]
  cases values (pieceName piece) <;> rfl

/-- The values under a name are those of its pairs, in order. -/
theorem readValues_headD (buffer name : Bytes) :
    (readValues buffer name).map (·.headD []) = valueOf buffer name := by
  have hfold : readValues buffer = (buffer.splitOn ampersand).foldl
      (fun values piece => values.appendTo (pieceName piece) (pieceValue piece)) .empty := by
    rw [readValues]
    congr 1
    funext values piece
    exact addPiece_eq values piece
  rw [hfold, GoMap.foldl_appendTo, valueOf, ← List.head?_filter]
  cases hfilter : (buffer.splitOn ampersand).filter (pieceName · = name) with
  | nil =>
    have hnone : (buffer.splitOn ampersand).any (pieceName · = name) = false := by
      simpa using hfilter
    simp [hnone]
  | cons piece rest =>
    have hany : (buffer.splitOn ampersand).any (pieceName · = name) = true := by
      have hmem : piece ∈ (buffer.splitOn ampersand).filter (pieceName · = name) := by simp [hfilter]
      exact List.any_eq_true.mpr ⟨piece, List.mem_filter.mp hmem⟩
    simp [hany]

/-- A field is read from the first pair of its name. -/
theorem unmarshalField_eq (buffer : Bytes) (p : FormField α) :
    unmarshalField texts (readValues buffer) p =
      match valueOf buffer (formName p.decl) with
      | none => .ok p.content
      | some val => readContent texts p.decl val p.content := by
  rw [unmarshalField, ← readValues_headD]
  cases readValues buffer (formName p.decl) <;> rfl

end UrlEncoding
end Gocom
