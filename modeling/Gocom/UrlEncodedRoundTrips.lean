import Gocom.UrlEncodedReading
import Mathlib.Data.List.Nodup
import Mathlib.Data.List.ReduceOption

/-!
# Writing and reading a form

A form is read back where the type of each field is one whose text the writer knows. For another
type an empty text is written, which reads as zero or not at all.
-/

namespace Gocom
namespace UrlEncoding

variable {α : Type*} (texts : FloatTexts)

/-- The zero value of the same kind. -/
def Content.zero : Content α → Content α
  | int kind _ => int kind 0
  | float kind _ => float kind 0
  | string _ => string []
  | bool _ => bool false
  | other x => other x

def FormField.zero (p : FormField α) : FormField α := ⟨p.decl, p.content.zero⟩

/-- Integers of their kind, strings and truth values. -/
def Content.Plain : Content α → Prop
  | int kind n => kind.InRange n
  | string _ | bool _ => True
  | _ => False

/-- Forms of plain fields with different names that do not contain separators. -/
structure PlainForm (fields : List (FormField α)) : Prop where
  distinct : (fields.map fun p => formName p.decl).Nodup
  separated : ∀ p ∈ fields, ampersand ∉ formName p.decl ∧ equalsSign ∉ formName p.decl
  included : ∀ p ∈ fields, formName p.decl ≠ asciiBytes "-"
  plain : ∀ p ∈ fields, p.content.Plain

/-- The form that is written is read into a zero struct as the struct that it was written from. -/
def RoundTrips (fields : List (FormField α)) : Prop :=
  ∃ buffer, marshalURLEncode texts fields = some buffer ∧
    unmarshalURLEncode texts buffer (fields.map FormField.zero) = (fields, none)

/-- A pair is written for the field. -/
def isWritten (p : FormField α) : Bool := !(isOmitempty p.decl && fieldText texts p = [])

/-- The field has an empty text that is left out, and no pair is read for it: an empty form has a
pair with an empty name. -/
def LeftOut (fields : List (FormField α)) (p : FormField α) : Prop :=
  isOmitempty p.decl = true ∧ (formName p.decl ≠ [] ∨ ∃ q ∈ fields, isWritten texts q = true)

/-- What can be restored of a plain field. -/
def Restorable (fields : List (FormField α)) (p : FormField α) : Prop :=
  match p.content with
  | .int kind n =>
    p.decl.exported = true ∧ (p.decl.typeName = kind.typeName ∨ n = 0 ∧ LeftOut texts fields p)
  | .bool b => p.decl.exported = true ∧ (p.decl.typeName = "bool" ∨ b = false)
  | .string s => p.decl.exported = true ∨ s = [] ∧ LeftOut texts fields p
  | _ => True

/-! ## The form that is written -/

def pieceOf (p : FormField α) : Bytes :=
  formName p.decl ++ asciiBytes "=" ++ queryEscape (fieldText texts p)

def formOf (fields : List (FormField α)) : Bytes :=
  join ((fields.filter (isWritten texts)).map (pieceOf texts)) "&"

variable {texts} {fields : List (FormField α)} {p : FormField α}

theorem PlainForm.not_excluded (h : PlainForm fields) (hp : p ∈ fields) :
    formTag p.decl ≠ asciiBytes "-" :=
  fun htag => h.included p hp (formName_of_excluded htag)

theorem marshalField_eq (htag : formTag p.decl ≠ asciiBytes "-")
    (hexported : p.content.isTakenOut = true → p.decl.exported = true) :
    marshalField texts p = some (if isWritten texts p then some (pieceOf texts p) else none) := by
  have hpanic : ¬ (p.content.isTakenOut = true ∧ ¬ p.decl.exported = true) :=
    fun h => h.2 (hexported h.1)
  rw [marshalField, if_neg htag, if_neg hpanic]
  by_cases homit : isOmitempty p.decl = true ∧ fieldText texts p = []
  · rw [if_pos homit, if_neg (by simp [isWritten, homit])]
  · have hwritten : isWritten texts p = true := by
      rw [isWritten, Bool.not_eq_true', ← Bool.not_eq_true, Bool.and_eq_true, decide_eq_true_eq]
      exact homit
    rw [if_neg homit, if_pos hwritten]
    rfl

variable (texts) in
/-- Where all values can be taken out, the pairs of the fields are written. -/
theorem marshalURLEncode_eq (h : ∀ p ∈ fields, formTag p.decl ≠ asciiBytes "-" ∧
    (p.content.isTakenOut = true → p.decl.exported = true)) :
    marshalURLEncode texts fields = some (formOf texts fields) := by
  have hpieces : ∃ pieces, fields.mapM (marshalField texts) = some pieces ∧
      pieces.reduceOption = (fields.filter (isWritten texts)).map (pieceOf texts) := by
    induction fields with
    | nil => exact ⟨[], rfl, rfl⟩
    | cons p fields ih =>
      obtain ⟨⟨htag, hexported⟩, hfields⟩ := List.forall_mem_cons.mp h
      obtain ⟨pieces, hread, hreduce⟩ := ih hfields
      rw [List.mapM_cons, marshalField_eq htag hexported, hread]
      refine ⟨_, rfl, ?_⟩
      cases hwritten : isWritten texts p with
      | false =>
        rw [List.filter_cons_of_neg (by simp [hwritten])]
        exact (List.reduceOption_cons_of_none pieces).trans hreduce
      | true =>
        rw [List.filter_cons_of_pos hwritten, List.map_cons, ← hreduce]
        exact List.reduceOption_cons_of_some _ pieces
  obtain ⟨pieces, hread, hreduce⟩ := hpieces
  rw [marshalURLEncode, hread, Option.map_some, hreduce]
  rfl

theorem some_of_mapM {β γ : Type*} {f : β → Option γ} {l : List β} {ys : List γ}
    (h : l.mapM f = some ys) {x : β} (hx : x ∈ l) : ∃ y, f x = some y := by
  induction l generalizing ys with
  | nil => cases hx
  | cons a l ih =>
    rw [List.mapM_cons] at h
    obtain ⟨y, hy, h⟩ := Option.bind_eq_some_iff.mp h
    obtain ⟨rest, hrest, -⟩ := Option.bind_eq_some_iff.mp h
    rcases List.mem_cons.mp hx with rfl | hx
    · exact ⟨y, hy⟩
    · exact ih hrest hx

/-- A value that cannot be taken out panics. -/
theorem exported_of_marshalURLEncode {buffer : Bytes}
    (h : marshalURLEncode texts fields = some buffer) (hp : p ∈ fields)
    (htag : formTag p.decl ≠ asciiBytes "-") (htaken : p.content.isTakenOut = true) :
    p.decl.exported = true := by
  by_contra hexported
  have hpanic : marshalField texts p = none := by
    rw [marshalField, if_neg htag, if_pos ⟨htaken, hexported⟩]
  obtain ⟨pieces, hpieces, -⟩ := Option.map_eq_some_iff.mp h
  obtain ⟨piece, hpiece⟩ := some_of_mapM hpieces hp
  exact absurd (hpanic.symm.trans hpiece) (Option.some_ne_none piece).symm

/-! ## The pairs that are read -/

theorem pieceOf_splitOn (h : equalsSign ∉ formName p.decl) :
    (pieceOf texts p).splitOn equalsSign = [formName p.decl, queryEscape (fieldText texts p)] := by
  have hequals : asciiBytes "=" = [equalsSign] := by decide
  have htext : equalsSign ∉ queryEscape (fieldText texts p) := (separator_notMem _).2
  rw [pieceOf, hequals, List.append_assoc, List.singleton_append,
    List.splitOn_append_cons_self_of_not_mem h, List.splitOn_eq_singleton htext]

theorem pieceName_pieceOf (h : equalsSign ∉ formName p.decl) :
    pieceName (pieceOf texts p) = formName p.decl := by
  rw [pieceName, pieceOf_splitOn h]
  rfl

theorem pieceValue_pieceOf (h : equalsSign ∉ formName p.decl) :
    pieceValue (pieceOf texts p) = fieldText texts p := by
  rw [pieceValue, pieceOf_splitOn h]
  exact urlDecode_queryEscape _

theorem formOf_splitOn (hform : PlainForm fields) (h : ∃ q ∈ fields, isWritten texts q = true) :
    (formOf texts fields).splitOn ampersand =
      (fields.filter (isWritten texts)).map (pieceOf texts) := by
  have hsep : asciiBytes "&" = [ampersand] := by decide
  rw [formOf, join, hsep]
  refine List.splitOn_intercalate _ ?_ ?_
  · intro piece hpiece
    obtain ⟨q, hq, rfl⟩ := List.mem_map.mp hpiece
    have hname := (hform.separated q (List.mem_filter.mp hq).1).1
    have hequals : ampersand ∉ asciiBytes "=" := by decide
    simp only [pieceOf, List.mem_append, not_or]
    exact ⟨⟨hname, hequals⟩, (separator_notMem _).1⟩
  · obtain ⟨q, hq, hwritten⟩ := h
    rw [Ne, List.map_eq_nil_iff]
    exact List.ne_nil_of_mem (List.mem_filter.mpr ⟨hq, hwritten⟩)

theorem isWritten_eq_false_iff :
    isWritten texts p = false ↔ isOmitempty p.decl = true ∧ fieldText texts p = [] := by
  rw [isWritten, Bool.not_eq_false', Bool.and_eq_true, decide_eq_true_eq]

/-- A blank form has a pair with an empty name. -/
theorem valueOf_nil (name : Bytes) : valueOf [] name = if name = [] then some [] else none := by
  have hsplit : pieceName [] = [] ∧ pieceValue [] = [] := ⟨rfl, rfl⟩
  rw [valueOf, List.splitOn_nil, List.find?_singleton, hsplit.1]
  by_cases hname : name = []
  · rw [hname, decide_eq_true rfl, if_pos rfl, if_pos rfl, Option.map_some, hsplit.2]
  · rw [decide_eq_false (Ne.symm hname), if_neg Bool.false_ne_true, if_neg hname, Option.map_none]

theorem formOf_eq_nil (h : ∀ q ∈ fields, isWritten texts q = false) : formOf texts fields = [] := by
  have hfilter : fields.filter (isWritten texts) = [] :=
    List.filter_eq_nil_iff.mpr fun q hq => Bool.eq_false_iff.mp (h q hq)
  rw [formOf, hfilter]
  rfl

variable (texts) in
/-- The text under the name of a field is its own, unless the field is left out. -/
theorem valueOf_formOf (hform : PlainForm fields) (hp : p ∈ fields) :
    valueOf (formOf texts fields) (formName p.decl) = some (fieldText texts p) ∧
        ¬ (fieldText texts p = [] ∧ LeftOut texts fields p) ∨
      valueOf (formOf texts fields) (formName p.decl) = none ∧
        fieldText texts p = [] ∧ LeftOut texts fields p := by
  by_cases hany : ∃ q ∈ fields, isWritten texts q = true
  · rw [valueOf, formOf_splitOn hform hany, List.find?_map, Option.map_map]
    cases hfind : (fields.filter (isWritten texts)).find?
        ((fun piece => decide (pieceName piece = formName p.decl)) ∘ pieceOf texts) with
    | none =>
      have hnot : isWritten texts p = false := by
        by_contra hwritten
        have hmem := List.mem_filter.mpr ⟨hp, Bool.not_eq_false _ ▸ hwritten⟩
        have hother := List.find?_eq_none.mp hfind p hmem
        exact hother (decide_eq_true (pieceName_pieceOf (hform.separated p hp).2))
      obtain ⟨homit, hempty⟩ := isWritten_eq_false_iff.mp hnot
      exact .inr ⟨rfl, hempty, homit, .inr hany⟩
    | some q =>
      obtain ⟨hq, hwritten⟩ := List.mem_filter.mp (List.mem_of_find?_eq_some hfind)
      have hfound := List.find?_some hfind
      have hname : pieceName (pieceOf texts q) = formName p.decl := of_decide_eq_true hfound
      have hsep := (hform.separated q hq).2
      rw [pieceName_pieceOf hsep] at hname
      obtain rfl : q = p := List.inj_on_of_nodup_map hform.distinct hq hp hname
      refine .inl ⟨congrArg some (pieceValue_pieceOf hsep), fun hleft => ?_⟩
      rw [isWritten_eq_false_iff.mpr ⟨hleft.2.1, hleft.1⟩] at hwritten
      exact Bool.false_ne_true hwritten
  · have hnone : ∀ q ∈ fields, isWritten texts q = false :=
      fun q hq => Bool.eq_false_iff.mpr fun hwritten => hany ⟨q, hq, hwritten⟩
    obtain ⟨homit, hempty⟩ := isWritten_eq_false_iff.mp (hnone p hp)
    rw [formOf_eq_nil hnone, valueOf_nil, hempty]
    by_cases hname : formName p.decl = []
    · refine .inl ⟨if_pos hname, fun hleft => ?_⟩
      exact hleft.2.2.elim (fun hne => hne hname) hany
    · exact .inr ⟨if_neg hname, rfl, homit, .inl hname⟩

/-! ## The fields that are read -/

theorem decimal_ne_nil (n : ℤ) : decimal n ≠ [] := by
  intro h
  have hread := integerOf_decimal n
  rw [h] at hread
  exact absurd hread.symm (Option.some_ne_none n)

theorem parse_nil (kind : NumKind) : ¬ ∃ n, kind.parse [] = .ok n := by
  rintro ⟨n, h⟩
  exact absurd (NumKind.integerOf_of_parse h).symm (Option.some_ne_none n)

theorem FormField.eq_iff {q : FormField α} (h : q.decl = p.decl) : q = p ↔ q.content = p.content := by
  obtain ⟨d, c⟩ := p
  obtain ⟨e, b⟩ := q
  obtain rfl : e = d := h
  simp

theorem zero_restored_of_none {buffer : Bytes} (h : valueOf buffer (formName p.decl) = none) :
    Storable texts buffer p.zero ∧ settled texts buffer p.zero = p ↔ p.content.zero = p.content := by
  have hzero : valueOf buffer (formName p.zero.decl) = none := h
  rw [settled_of_none hzero, and_iff_right (storable_of_none hzero)]
  exact FormField.eq_iff rfl

theorem zero_restored_of_some {buffer val : Bytes}
    (h : valueOf buffer (formName p.decl) = some val) :
    Storable texts buffer p.zero ∧ settled texts buffer p.zero = p ↔
      (Parses texts val p.content.zero ∧ (p.content.zero.isOther = true ∨ p.decl.exported = true)) ∧
        p.content.zero.stored texts val = p.content := by
  have hzero : valueOf buffer (formName p.zero.decl) = some val := h
  rw [settled_of_some hzero, storable_iff_of_some hzero]
  exact and_congr_right fun _ => FormField.eq_iff rfl

variable (texts fields) in
/-- The zero of this field is read as the field again. -/
def Restored (p : FormField α) : Prop :=
  Storable texts (formOf texts fields) p.zero ∧ settled texts (formOf texts fields) p.zero = p

variable {d : FieldDecl}

theorem int_restored_iff {kind : NumKind} {n : ℤ} (hform : PlainForm fields)
    (hp : ⟨d, .int kind n⟩ ∈ fields) (hd : d.exported = true) :
    Restored texts fields ⟨d, .int kind n⟩ ↔ Restorable texts fields ⟨d, .int kind n⟩ := by
  have hrange : kind.InRange n := hform.plain _ hp
  have hvalue := valueOf_formOf texts hform hp
  rw [Restored]
  by_cases htype : d.typeName = kind.typeName
  · have htext : fieldText texts (⟨d, .int kind n⟩ : FormField α) = decimal n := if_pos htype
    rw [htext] at hvalue
    obtain ⟨hval, -⟩ := hvalue.resolve_right fun h => decimal_ne_nil n h.2.1
    have hparse := NumKind.parse_decimal hrange
    have hwrap := (kind.wrap_eq_self_iff n).mpr hrange
    rw [zero_restored_of_some hval]
    refine iff_of_true ⟨⟨⟨n, hparse⟩, .inr hd⟩, ?_⟩ ⟨hd, .inl htype⟩
    simp [Content.zero, Content.stored, hparse, hwrap]
  · have htext : fieldText texts (⟨d, .int kind n⟩ : FormField α) = [] := if_neg htype
    rw [htext] at hvalue
    rcases hvalue with ⟨hval, hleft⟩ | ⟨hval, -, hleft⟩
    · rw [zero_restored_of_some hval]
      refine iff_of_false (fun h => parse_nil kind h.1.1) fun h => ?_
      exact hleft ⟨rfl, (h.2.resolve_left htype).2⟩
    · rw [zero_restored_of_none hval]
      constructor
      · exact fun h => ⟨hd, .inr ⟨(Content.int.inj h).2.symm, hleft⟩⟩
      · exact fun h => congrArg (Content.int kind) (h.2.resolve_left htype).1.symm

theorem bool_restored_iff {b : Bool} (hform : PlainForm fields) (hp : ⟨d, .bool b⟩ ∈ fields)
    (hd : d.exported = true) :
    Restored texts fields ⟨d, .bool b⟩ ↔ Restorable texts fields ⟨d, .bool b⟩ := by
  have hvalue := valueOf_formOf texts hform hp
  rw [Restored]
  by_cases htype : d.typeName = "bool"
  · have htext : fieldText texts (⟨d, .bool b⟩ : FormField α) =
        asciiBytes (if b then "true" else "false") := if_pos htype
    have hne : asciiBytes (if b then "true" else "false") ≠ [] := by cases b <;> decide
    have hback : toBoolean (asciiBytes (if b then "true" else "false")) = b := by
      cases b <;> decide
    rw [htext] at hvalue
    obtain ⟨hval, -⟩ := hvalue.resolve_right fun h => hne h.2.1
    rw [zero_restored_of_some hval]
    exact iff_of_true ⟨⟨trivial, .inr hd⟩, congrArg Content.bool hback⟩ ⟨hd, .inl htype⟩
  · have htext : fieldText texts (⟨d, .bool b⟩ : FormField α) = [] := if_neg htype
    -- the empty text is read as `false`, as is a missing one
    have hfalse : (Content.bool false : Content α) = .bool b ↔
        Restorable texts fields ⟨d, .bool b⟩ := by
      constructor
      · exact fun h => ⟨hd, .inr (Content.bool.inj h).symm⟩
      · exact fun h => congrArg Content.bool (h.2.resolve_left htype).symm
    rw [htext] at hvalue
    rcases hvalue with ⟨hval, -⟩ | ⟨hval, -⟩
    · rw [zero_restored_of_some hval, ← hfalse]
      exact and_iff_right ⟨trivial, .inr hd⟩
    · rw [zero_restored_of_none hval, ← hfalse]
      rfl

theorem string_restored_iff {s : Bytes} (hform : PlainForm fields)
    (hp : ⟨d, .string s⟩ ∈ fields) :
    Restored texts fields ⟨d, .string s⟩ ↔ Restorable texts fields ⟨d, .string s⟩ := by
  have htext : fieldText texts (⟨d, .string s⟩ : FormField α) = s := rfl
  have hvalue := valueOf_formOf texts hform hp
  rw [htext] at hvalue
  rw [Restored]
  rcases hvalue with ⟨hval, hleft⟩ | ⟨hval, hempty, hleft⟩
  · rw [zero_restored_of_some hval]
    simp [Content.zero, Content.stored, Parses, Content.isOther, Restorable, hleft]
  · rw [zero_restored_of_none hval]
    exact iff_of_true (congrArg Content.string hempty.symm) (.inr ⟨hempty, hleft⟩)

/-- A zero field is read as the field if and only if it can be restored. -/
theorem restored_iff (hform : PlainForm fields) (hp : p ∈ fields)
    (hexported : p.content.isTakenOut = true → p.decl.exported = true) :
    Restored texts fields p ↔ Restorable texts fields p := by
  have hplain := hform.plain p hp
  obtain ⟨d, c⟩ := p
  cases c with
  | int kind n => exact int_restored_iff hform hp (hexported rfl)
  | bool b => exact bool_restored_iff hform hp (hexported rfl)
  | string s => exact string_restored_iff hform hp
  | float _ _ | other _ => exact hplain.elim

/-- All fields are read back if and only if each of them is. -/
theorem unmarshal_zero_iff (buffer : Bytes) (fields : List (FormField α)) :
    unmarshalURLEncode texts buffer (fields.map FormField.zero) = (fields, none) ↔
      ∀ p ∈ fields, Storable texts buffer p.zero ∧ settled texts buffer p.zero = p := by
  have hsettled : (fields.map FormField.zero).map (settled texts buffer) = fields ↔
      ∀ p ∈ fields, settled texts buffer p.zero = p := by
    have hmap := List.map_inj_left (l := fields) (f := settled texts buffer ∘ FormField.zero) (g := id)
    rw [List.map_id] at hmap
    rw [List.map_map]
    exact hmap
  constructor
  · intro h
    have hall := (unmarshalURLEncode_done _).mp (congrArg Prod.snd h)
    have hfst := (unmarshalURLEncode_fst hall).symm.trans (congrArg Prod.fst h)
    exact fun p hp => ⟨hall p.zero (List.mem_map_of_mem hp), hsettled.mp hfst p hp⟩
  · intro h
    have hall : ∀ q ∈ fields.map FormField.zero, Storable texts buffer q := by
      intro q hq
      obtain ⟨p, hp, rfl⟩ := List.mem_map.mp hq
      exact (h p hp).1
    refine Prod.ext ?_ ((unmarshalURLEncode_done _).mpr hall)
    exact (unmarshalURLEncode_fst hall).trans (hsettled.mpr fun p hp => (h p hp).2)

variable (texts) in
theorem marshalURLEncode_roundTrips_iff (hform : PlainForm fields) :
    RoundTrips texts fields ↔ ∀ p ∈ fields, Restorable texts fields p := by
  constructor
  · rintro ⟨buffer, hwrite, hread⟩
    have hexported : ∀ p ∈ fields, p.content.isTakenOut = true → p.decl.exported = true :=
      fun p hp => exported_of_marshalURLEncode hwrite hp (hform.not_excluded hp)
    have hbuffer := marshalURLEncode_eq texts fun p hp =>
      ⟨hform.not_excluded hp, hexported p hp⟩
    obtain rfl := Option.some.inj (hbuffer.symm.trans hwrite)
    exact fun p hp => (restored_iff hform hp (hexported p hp)).mp
      ((unmarshal_zero_iff _ _).mp hread p hp)
  · intro h
    have hexported : ∀ p ∈ fields, p.content.isTakenOut = true → p.decl.exported = true := by
      intro p hp htaken
      have hrestorable := h p hp
      have hplain := hform.plain p hp
      obtain ⟨d, c⟩ := p
      cases c with
      | int kind n | bool b => exact hrestorable.1
      | string s | other x => exact absurd htaken Bool.false_ne_true
      | float kind bits => exact hplain.elim
    refine ⟨formOf texts fields, marshalURLEncode_eq texts fun p hp =>
      ⟨hform.not_excluded hp, hexported p hp⟩, (unmarshal_zero_iff _ _).mpr fun p hp => ?_⟩
    exact (restored_iff hform hp (hexported p hp)).mpr (h p hp)

def namedFlag (flag : Bool) : FormField Unit :=
  ⟨{ name := asciiBytes "Flag", typeName := "main.Flag" }, .bool flag⟩

theorem plainForm_namedFlag (flag : Bool) : PlainForm [namedFlag flag] where
  distinct := List.nodup_singleton _
  separated p hp := by
    rw [List.mem_singleton.mp hp]
    cases flag <;> exact ⟨by decide, by decide⟩
  included p hp := by
    rw [List.mem_singleton.mp hp]
    cases flag <;> decide
  plain p hp := by
    rw [List.mem_singleton.mp hp]
    trivial

theorem marshalURLEncode_roundTrips_iff_namedFlag : RoundTrips noFloats [namedFlag false] ↔
    ∀ p ∈ [namedFlag false], Restorable noFloats [namedFlag false] p :=
  marshalURLEncode_roundTrips_iff noFloats (plainForm_namedFlag false)

/-- The truth value of a named type is lost. -/
theorem namedFlag_not_roundTrips :
    PlainForm [namedFlag true] ∧ ¬ RoundTrips noFloats [namedFlag true] := by
  refine ⟨plainForm_namedFlag true, ?_⟩
  rintro ⟨buffer, hwrite, hread⟩
  have hbuffer : marshalURLEncode noFloats [namedFlag true] = some (asciiBytes "flag=") := by
    decide
  obtain rfl := Option.some.inj (hbuffer.symm.trans hwrite)
  revert hread
  decide

end UrlEncoding
end Gocom
