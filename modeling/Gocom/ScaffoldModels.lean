import Gocom.CaseConversions
import Gocom.NumberTexts
import Gocom.PathNames

/-!
# Generated models

The source text of a model, from the description of its fields. The columns of the structure are aligned
by blanks, and a text cannot be repeated a negative number of times.
-/

namespace Gocom

open PathNames

structure ModelField where
  name : Bytes := []
  column : Bytes := []
  columnType : Bytes := []
  type : Bytes := []
  length : ℤ := 0
  isPrimaryKey : Bool := false
  isIndex : Bool := false
  autoIncreament : Bool := false
  isRequired : Bool := false

structure ModelScaffolds where
  path : Bytes
  name : Bytes := []
  tableName : Bytes := []
  fields : List ModelField := []
  datasource : Bytes := []

/-- From the types of the language to those of the database. -/
def fieldTypeMappings (fieldType : Bytes) : Bytes :=
  ([("int", "Int"), ("int8", "Int"), ("int16", "Int"), ("int32", "Int"), ("uint", "Int"), ("uint8", "Int"),
    ("uint16", "Int"), ("uint32", "Int"), ("int64", "BigInt"), ("uint64", "BigInt"), ("float32", "Float"),
    ("float64", "Double"), ("complex64", "Varchar(64)"), ("complex128", "Varchar(64)"), ("[]uint8", "Blob"),
    ("[]byte", "Blob"), ("array", "Text"), ("slice", "Text"), ("map", "Text"), ("bool", "Bool"),
    ("string", "Varchar(255)"), ("time.Time", "DateTime")].find? fun p => asciiBytes p.1 = fieldType).elim []
    fun p => asciiBytes p.2

/-- `strings.Repeat(" ", count)`, which panics on a negative count. -/
def repeatSpaces (count : ℤ) : Option Bytes :=
  if count < 0 then none else some (List.replicate count.toNat 32)

/-- `ReplaceAllString` for the expression `\((\d+)\)`. -/
def replaceSizes (size : Bytes) : ℕ → Bytes → Bytes
  | 0, s => s
  | _, [] => []
  | fuel + 1, b :: s =>
    let digits := s.takeWhile isDigit
    if b = 40 ∧ digits ≠ [] ∧ (s.drop digits.length).head? = some 41 then
      40 :: size ++ 41 :: replaceSizes size fuel (s.drop (digits.length + 1))
    else b :: replaceSizes size fuel s

def getGoSourcePackageName (filePath defaultName : Bytes) : Bytes :=
  let pkgName := pathDir filePath
  if pkgName = [] ∨ pkgName = [dot] ∨ pkgName = [dot, slash] then defaultName
  else pkgName.rtakeWhile fun b => b ∉ ([dot, slash, 92, 32] : Bytes)

namespace ModelField

variable (l : UnicodeLower)

def getFieldType (f : ModelField) : Bytes :=
  let fieldType := if f.type.any fun b => b ∈ ([dot, slash, 91, 93] : Bytes) then f.type else toLower l f.type
  if fieldTypeMappings fieldType = [] then asciiBytes "string" else fieldType

def getColumnType (f : ModelField) : Bytes :=
  let columnType := fieldTypeMappings (getFieldType l f)
  let columnType := if columnType = [] then fieldTypeMappings (asciiBytes "string") else columnType
  if f.length > 0 then replaceSizes (decimal f.length) columnType.length columnType else columnType

def serializeFieldSpecs (f : ModelField) : Bytes :=
  let fieldSpecs := (if f.isRequired then [asciiBytes "notnull"] else []) ++
    (if f.isPrimaryKey then [asciiBytes "pk"] else if f.isIndex then [asciiBytes "index"] else []) ++
    (if f.autoIncreament then [asciiBytes "autoincr"] else [])
  if fieldSpecs.length > 0 then 32 :: join fieldSpecs " " else []

def fieldName (f : ModelField) : Bytes :=
  if pascalCaseString f.name = [] then pascalCaseString f.column else pascalCaseString f.name

def encode (f : ModelField) (fieldSpaces typeSpaces : ℕ) : Option Bytes :=
  if f.fieldName = [] then some []
  else do
    let jsonName := camelCaseString f.fieldName
    let columnName := if f.column = [] then snakeCaseString l f.fieldName else f.column
    let fieldType := getFieldType l f
    let columnType := getColumnType l f
    let afterName ← repeatSpaces (fieldSpaces - f.fieldName.length)
    let afterType ← repeatSpaces (typeSpaces - fieldType.length)
    some (9 :: f.fieldName ++ 32 :: afterName ++ 32 :: fieldType ++ 32 :: afterType ++
      asciiBytes "\x60xorm:\"'" ++ columnName ++ asciiBytes "' " ++ columnType ++ serializeFieldSpecs f ++
      asciiBytes "\" json:\"" ++ jsonName ++ asciiBytes "\"\x60")

end ModelField

namespace ModelScaffolds

variable (l : UnicodeLower)

def getStructName (m : ModelScaffolds) : Bytes :=
  if pascalCaseString m.name = [] then pascalCaseString m.tableName else pascalCaseString m.name

/-- The room for the names of the fields. -/
def fieldSpaces (m : ModelScaffolds) : ℕ := m.fields.foldl (fun n f => if f.name.length > n then f.name.length else n) 27

/-- The room for the types of the fields. -/
def typeSpaces (m : ModelScaffolds) : ℕ :=
  m.fields.foldl (fun n f => if (f.getFieldType l).length > n then (f.getFieldType l).length else n) 3

/-- One line for each field that needs it. -/
def exImports (m : ModelScaffolds) : List Bytes :=
  m.fields.filterMap fun f =>
    if f.getFieldType l = asciiBytes "time.Time" then some (asciiBytes "\t\"time\"\n") else none

/-- A method that is handed on to the data source. -/
def method (structureName : Bytes) (name result : String) : Bytes :=
  asciiBytes "func (m *" ++ structureName ++ asciiBytes (") " ++ name ++ "() (" ++ result ++
    ", error) \x7b\n\treturn m.Datasource." ++ name ++ "(m)\n\x7d\n")

def encode (m : ModelScaffolds) : Option Bytes := do
  let pkgName := getGoSourcePackageName m.path (asciiBytes "models")
  let structureName := m.getStructName
  let tableName := if m.tableName = [] then snakeCaseString l structureName else m.tableName
  let fields ← m.fields.mapM fun f => f.encode l m.fieldSpaces (m.typeSpaces l)
  let afterBehavior ← repeatSpaces (m.fieldSpaces - 27)
  let afterDatasource ← repeatSpaces (m.fieldSpaces - 16)
  let exImports := m.exImports l
  let exImports := if exImports.length > 0 then exImports ++ [asciiBytes "\n"] else exImports
  some (join [
    asciiBytes "package " ++ pkgName ++ asciiBytes "\n",
    asciiBytes "import (",
    join exImports "" ++ asciiBytes "\t\"github.com/kevinyjn/gocom/orm/rdbms\"",
    asciiBytes "\t\"github.com/kevinyjn/gocom/orm/rdbms/behaviors\"",
    asciiBytes ")\n",
    asciiBytes "// " ++ structureName ++ asciiBytes " model",
    asciiBytes "type " ++ structureName ++ asciiBytes " struct \x7b",
    join fields "\n",
    asciiBytes "\tbehaviors.ModifyingBehavior " ++ afterBehavior ++ asciiBytes "\x60xorm:\"extends\"\x60",
    asciiBytes "\trdbms.Datasource " ++ afterDatasource ++ asciiBytes "\x60xorm:\"-\" datasource:\"default\"\x60",
    asciiBytes "\x7d\n",
    asciiBytes "// TableName returns table name in database",
    asciiBytes "func (m *" ++ structureName ++ asciiBytes ") TableName() string \x7b\n\treturn \"" ++ tableName ++
      asciiBytes "\"\n\x7d\n",
    asciiBytes "// Fetch retrieve one record by self condition",
    method structureName "Fetch" "bool",
    asciiBytes "// Save record to database",
    method structureName "Save" "bool",
    asciiBytes "// Exists by record",
    method structureName "Exists" "bool",
    asciiBytes "// Count record",
    method structureName "Count" "int64",
    asciiBytes "// Delete record",
    method structureName "Delete" "int64"] "\n")

end ModelScaffolds
/-! ## Names in Pascal case -/

/-- Only an underscore before a small letter is left out. -/
theorem pascalCaseFrom_cons (j k : Bool) (b : UInt8) (s : Bytes) :
    (∃ d j' k', pascalCaseFrom j k (b :: s) = d :: pascalCaseFrom j' k' s) ∨
      ((b = underscore ∧ s.head?.any isLower) ∧ ∃ k', pascalCaseFrom j k (b :: s) = pascalCaseFrom true k' s) := by
  rw [pascalCaseFrom]
  by_cases hraised : (isLower b && (j || !(k || isUpper b))) = true
  · have hlower : isLower b = true := (Bool.and_eq_true_iff.mp hraised).1
    have hne : b - 32 ≠ 95 := fun h => absurd (h ▸ (lower_byte b hlower).2.1) (by decide)
    simp only [hraised, if_true, decide_eq_false hne, Bool.and_false, Bool.false_and, Bool.false_eq_true, if_false]
    exact .inl ⟨_, _, _, rfl⟩
  · simp only [hraised, if_false, Bool.false_eq_true]
    split_ifs with hskip
    · simp only [Bool.and_eq_true, decide_eq_true_eq] at hskip
      exact .inr ⟨⟨hskip.1.2, hskip.2⟩, _, rfl⟩
    · exact .inl ⟨b, _, _, rfl⟩

theorem length_pascalCaseFrom_le (j k : Bool) (s : Bytes) : (pascalCaseFrom j k s).length ≤ s.length := by
  induction s generalizing j k with
  | nil => exact Nat.le_refl 0
  | cons b s ih =>
    rcases pascalCaseFrom_cons j k b s with ⟨d, j', k', h⟩ | ⟨-, k', h⟩
    · rw [h]
      exact Nat.succ_le_succ (ih j' k')
    · rw [h]
      exact (ih true k').trans (Nat.le_succ _)

theorem pascalCaseString_eq_nil_iff {s : Bytes} : pascalCaseString s = [] ↔ s = [] := by
  constructor
  · intro h
    rcases s with _ | ⟨b, s⟩
    · rfl
    rcases pascalCaseFrom_cons false false b s with ⟨d, j, k, hcons⟩ | ⟨⟨-, hlower⟩, k, hskip⟩
    · exact absurd (hcons.symm.trans h) (List.cons_ne_nil _ _)
    rcases s with _ | ⟨c, s⟩
    · cases hlower
    -- the small letter behind a skipped underscore is kept
    rcases pascalCaseFrom_cons true k c s with ⟨d, j, k', hcons⟩ | ⟨⟨hc, -⟩, -⟩
    · exact absurd (hcons.symm.trans (hskip.symm.trans h)) (List.cons_ne_nil _ _)
    · rw [List.head?_cons, Option.any_some, hc] at hlower
      exact absurd hlower (by decide)
  · rintro rfl
    rfl

/-! ## When a model can be written -/

theorem repeatSpaces_eq_none_iff (m n : ℕ) : repeatSpaces (m - n) = none ↔ m < n := by
  rw [repeatSpaces]
  split_ifs with h
  · exact iff_of_true rfl (by omega)
  · exact iff_of_false (fun h => nomatch h) (by omega)

theorem mapM_eq_none_iff {α β : Type*} {f : α → Option β} {xs : List α} :
    xs.mapM f = none ↔ ∃ x ∈ xs, f x = none := by
  induction xs with
  | nil => simp
  | cons x xs ih =>
    rw [List.mapM_cons, List.exists_mem_cons_iff, ← ih]
    cases f x with
    | none => simp
    | some y => cases xs.mapM f <;> simp

/-- The room is large enough for everything it is measured on. -/
theorem le_room {α : Type*} (size : α → ℕ) (xs : List α) (n : ℕ) :
    n ≤ xs.foldl (fun n x => if size x > n then size x else n) n ∧
      ∀ x ∈ xs, size x ≤ xs.foldl (fun n x => if size x > n then size x else n) n := by
  induction xs generalizing n with
  | nil => exact ⟨Nat.le_refl n, fun x hx => absurd hx List.not_mem_nil⟩
  | cons y xs ih =>
    obtain ⟨hbase, hxs⟩ := ih (if size y > n then size y else n)
    have hy : n ≤ (if size y > n then size y else n) ∧ size y ≤ if size y > n then size y else n := by
      split_ifs <;> omega
    exact ⟨hy.1.trans hbase, List.forall_mem_cons.mpr ⟨hy.2.trans hbase, hxs⟩⟩

namespace ModelScaffolds

variable (l : UnicodeLower) (m : ModelScaffolds)

theorem typeSpaces_le {f : ModelField} (hf : f ∈ m.fields) : (f.getFieldType l).length ≤ m.typeSpaces l :=
  (le_room (fun f : ModelField => (f.getFieldType l).length) m.fields 3).2 f hf

theorem fieldSpaces_le {f : ModelField} (hf : f ∈ m.fields) : f.name.length ≤ m.fieldSpaces :=
  (le_room (fun f : ModelField => f.name.length) m.fields 27).2 f hf

theorem le_fieldSpaces : 27 ≤ m.fieldSpaces := (le_room (fun f : ModelField => f.name.length) m.fields 27).1

/-- The room is measured on the names as given, and not on columns. -/
theorem fieldSpaces_lt_iff {f : ModelField} (hf : f ∈ m.fields) : m.fieldSpaces < f.fieldName.length ↔
    f.name = [] ∧ m.fieldSpaces < (pascalCaseString f.column).length := by
  have hroom := fieldSpaces_le m hf
  have hpascal : (pascalCaseString f.name).length ≤ f.name.length := length_pascalCaseFrom_le false false f.name
  rw [ModelField.fieldName]
  split_ifs with hname
  · rw [and_iff_right (pascalCaseString_eq_nil_iff.mp hname)]
  · exact iff_of_false (by omega) fun h => hname (pascalCaseString_eq_nil_iff.mpr h.1)

theorem field_encode_eq_none_iff {f : ModelField} (hf : f ∈ m.fields) :
    f.encode l m.fieldSpaces (m.typeSpaces l) = none ↔
      f.name = [] ∧ m.fieldSpaces < (pascalCaseString f.column).length := by
  rw [← fieldSpaces_lt_iff m hf, ModelField.encode]
  by_cases hname : f.fieldName = []
  · rw [if_pos hname, hname]
    exact iff_of_false (fun h => nomatch h) (Nat.not_lt_zero _)
  have htype : repeatSpaces (m.typeSpaces l - (f.getFieldType l).length) ≠ none :=
    mt (repeatSpaces_eq_none_iff _ _).mp (by have := typeSpaces_le l m hf; omega)
  obtain ⟨afterType, hafterType⟩ := Option.ne_none_iff_exists'.mp htype
  rw [if_neg hname, ← repeatSpaces_eq_none_iff]
  cases repeatSpaces (m.fieldSpaces - f.fieldName.length) <;> simp [hafterType]

theorem encode_eq_none_iff : m.encode l = none ↔
    ∃ f ∈ m.fields, f.name = [] ∧ m.fieldSpaces < (pascalCaseString f.column).length := by
  have hroom := le_fieldSpaces m
  have hbehavior : repeatSpaces (m.fieldSpaces - (27 : ℕ)) ≠ none :=
    mt (repeatSpaces_eq_none_iff _ _).mp (by omega)
  have hdatasource : repeatSpaces (m.fieldSpaces - (16 : ℕ)) ≠ none :=
    mt (repeatSpaces_eq_none_iff _ _).mp (by omega)
  obtain ⟨afterBehavior, hafterBehavior⟩ := Option.ne_none_iff_exists'.mp hbehavior
  obtain ⟨afterDatasource, hafterDatasource⟩ := Option.ne_none_iff_exists'.mp hdatasource
  have hfields : (m.fields.mapM fun f => f.encode l m.fieldSpaces (m.typeSpaces l)) = none ↔
      ∃ f ∈ m.fields, f.name = [] ∧ m.fieldSpaces < (pascalCaseString f.column).length := by
    rw [mapM_eq_none_iff]
    exact exists_congr fun f => and_congr_right fun hf => field_encode_eq_none_iff l m hf
  rw [← hfields, encode]
  cases (m.fields.mapM fun f => f.encode l m.fieldSpaces (m.typeSpaces l)) with
  | none => exact iff_of_true rfl rfl
  | some fields =>
    refine iff_of_false ?_ (Option.some_ne_none fields)
    have hrest : ∀ text : Bytes → Bytes → Bytes, (do
        let afterBehavior ← repeatSpaces (m.fieldSpaces - (27 : ℕ))
        let afterDatasource ← repeatSpaces (m.fieldSpaces - (16 : ℕ))
        some (text afterBehavior afterDatasource)) ≠ none := by
      intro text
      rw [hafterBehavior, hafterDatasource]
      exact Option.some_ne_none _
    exact hrest _

theorem repeatSpaces_eq_some {a b : ℕ} {s : Bytes} (h : repeatSpaces (a - b) = some s) : b + s.length = a := by
  rw [repeatSpaces] at h
  split_ifs at h with hneg
  obtain rfl := Option.some.inj h
  rw [List.length_replicate]
  omega

/-- Behind the same number of characters comes the type, and behind the same number the tag. -/
theorem field_encode_aligned {f : ModelField} {fieldSpaces typeSpaces : ℕ} (hname : f.fieldName ≠ [])
    {text : Bytes} (h : f.encode l fieldSpaces typeSpaces = some text) :
    ∃ front gap rest, text = front ++ (f.getFieldType l ++ (gap ++ 96 :: rest)) ∧ front.length = fieldSpaces + 3 ∧
      (f.getFieldType l).length + gap.length = typeSpaces + 1 := by
  rw [ModelField.encode, if_neg hname] at h
  dsimp only at h
  obtain ⟨afterName, hafterName, h⟩ := Option.bind_eq_some_iff.mp h
  obtain ⟨afterType, hafterType, h⟩ := Option.bind_eq_some_iff.mp h
  obtain ⟨tag, htag⟩ : ∃ tag, asciiBytes "\x60xorm:\"'" = 96 :: tag := ⟨_, rfl⟩
  have hnameLength := repeatSpaces_eq_some hafterName
  have htypeLength := repeatSpaces_eq_some hafterType
  rw [htag] at h
  obtain ⟨rest, hrest⟩ : ∃ rest, text = (9 :: f.fieldName ++ 32 :: afterName ++ [32]) ++
      (f.getFieldType l ++ (32 :: afterType ++ 96 :: rest)) := by
    rw [← Option.some.inj h]
    simp only [List.append_assoc, List.cons_append, List.nil_append]
    exact ⟨_, rfl⟩
  refine ⟨_, _, rest, hrest, ?_, ?_⟩
  · simp only [List.length_append, List.length_cons, List.length_nil]
    omega
  · rw [List.length_cons]
    omega

/-- A model cannot be written exactly when a field without a name has a column whose Pascal form is longer
than the room for names; otherwise the types and the tags of its fields are aligned. -/
theorem encode_eq_none_iff_aligned : (m.encode l = none ↔
      ∃ f ∈ m.fields, f.name = [] ∧ m.fieldSpaces < (pascalCaseString f.column).length) ∧
    ∀ f ∈ m.fields, f.fieldName ≠ [] → ∀ text, f.encode l m.fieldSpaces (m.typeSpaces l) = some text →
      ∃ front gap rest, text = front ++ (f.getFieldType l ++ (gap ++ 96 :: rest)) ∧
        front.length = m.fieldSpaces + 3 ∧ (f.getFieldType l).length + gap.length = m.typeSpaces l + 1 :=
  ⟨encode_eq_none_iff l m, fun _ _ hname _ h => field_encode_aligned l hname h⟩

end ModelScaffolds
end Gocom
