import Gocom.UrlEncoding
import Mathlib.Data.List.Forall2

/-!
# What reading a form does

Reading goes through the fields until a text cannot be parsed or a field cannot be set. Numbers are
read with 64 bits and cut to the kind of their field. A field that is excluded from forms by its tag
is read under the name of this tag, although it is never written.
-/

namespace Gocom
namespace UrlEncoding

variable {α : Type*} (texts : FloatTexts)

def Content.isOther : Content α → Bool
  | other _ => true
  | _ => false

/-- The text is one of the kind. -/
def Parses (val : Bytes) : Content α → Prop
  | .int kind _ => ∃ n, kind.parse val = .ok n
  | .float _ _ => ∃ bits, texts.parse 64 val = .ok bits
  | _ => True

/-- What is stored for a text of the kind. -/
def Content.stored (val : Bytes) : Content α → Content α
  | int kind n =>
    match kind.parse val with
    | .ok iv => int kind (kind.wrap iv)
    | .error _ => int kind n
  | string _ => string val
  | bool _ => bool (toBoolean val)
  | float kind bits =>
    match texts.parse 64 val with
    | .ok fv => float kind (texts.wrap kind fv)
    | .error _ => float kind bits
  | other x => other x

variable (buffer : Bytes)

/-- The reading does not end at this field. -/
def Storable (p : FormField α) : Prop :=
  ∀ val, valueOf buffer (formName p.decl) = some val →
    Parses texts val p.content ∧ (p.content.isOther = true ∨ p.decl.exported = true)

/-- It ends with an error here. -/
def Unparsable (p : FormField α) : Prop :=
  ∃ val, valueOf buffer (formName p.decl) = some val ∧ ¬ Parses texts val p.content

/-- A field after the reading has passed. -/
def settled (p : FormField α) : FormField α :=
  match valueOf buffer (formName p.decl) with
  | none => p
  | some val => ⟨p.decl, p.content.stored texts val⟩

theorem readContent_cases (d : FieldDecl) (val : Bytes) (c : Content α) :
    (¬ Parses texts val c ∧ ∃ message, readContent texts d val c = .error (.error message)) ∨
      Parses texts val c ∧
        readContent texts d val c =
          if c.isOther = true ∨ d.exported = true then .ok (c.stored texts val)
          else .error .panic := by
  cases c with
  | int kind n =>
    cases hparse : kind.parse val with
    | error err => exact .inl ⟨by simp [Parses, hparse], by simp [readContent, hparse]⟩
    | ok iv =>
      refine .inr ⟨⟨iv, hparse⟩, ?_⟩
      simp [readContent, Content.stored, hparse, setContent, Content.isOther]
  | float kind bits =>
    cases hparse : texts.parse 64 val with
    | error err => exact .inl ⟨by simp [Parses, hparse], by simp [readContent, hparse]⟩
    | ok fv =>
      refine .inr ⟨⟨fv, hparse⟩, ?_⟩
      simp [readContent, Content.stored, hparse, setContent, Content.isOther]
  | string s | bool b =>
    exact .inr ⟨trivial, by simp [readContent, Content.stored, setContent, Content.isOther]⟩
  | other x => exact .inr ⟨trivial, rfl⟩

section Values
variable {texts buffer} {p : FormField α} {val : Bytes}

theorem storable_of_none (h : valueOf buffer (formName p.decl) = none) : Storable texts buffer p :=
  fun _ hval => absurd (h.symm.trans hval) (Option.some_ne_none _).symm

theorem storable_iff_of_some (h : valueOf buffer (formName p.decl) = some val) :
    Storable texts buffer p ↔
      Parses texts val p.content ∧ (p.content.isOther = true ∨ p.decl.exported = true) := by
  simp [Storable, h]

theorem settled_of_none (h : valueOf buffer (formName p.decl) = none) :
    settled texts buffer p = p := by
  rw [settled, h]

theorem settled_of_some (h : valueOf buffer (formName p.decl) = some val) :
    settled texts buffer p = ⟨p.decl, p.content.stored texts val⟩ := by
  rw [settled, h]

end Values

/-- A field is settled, or the reading ends: with an error exactly if its text is not one of its
kind. -/
theorem unmarshalField_cases (p : FormField α) :
    Storable texts buffer p ∧
        unmarshalField texts (readValues buffer) p = .ok (settled texts buffer p).content ∨
      ¬ Storable texts buffer p ∧ ∃ stop, unmarshalField texts (readValues buffer) p = .error stop ∧
        (Unparsable texts buffer p ↔ stop ≠ .panic) := by
  rw [unmarshalField_eq]
  cases hval : valueOf buffer (formName p.decl) with
  | none => exact .inl ⟨storable_of_none hval, by rw [settled_of_none hval]⟩
  | some val =>
    have hunparsable : Unparsable texts buffer p ↔ ¬ Parses texts val p.content := by
      simp [Unparsable, hval]
    rw [storable_iff_of_some hval, settled_of_some hval, hunparsable]
    rcases readContent_cases texts p.decl val p.content with
      ⟨hparses, message, hread⟩ | ⟨hparses, hread⟩
    · exact .inr ⟨fun h => hparses h.1, .error message, hread, by simp [hparses]⟩
    · dsimp only
      rw [hread]
      split_ifs with hset
      · exact .inl ⟨⟨hparses, hset⟩, rfl⟩
      · exact .inr ⟨fun h => hset h.2, .panic, rfl, by simp [hparses]⟩

theorem settled_decl (p : FormField α) : (settled texts buffer p).decl = p.decl := by
  rw [settled]
  split <;> rfl

variable {texts buffer} {p : FormField α}

theorem unmarshalURLEncode_of_storable (hp : Storable texts buffer p) (fields : List (FormField α)) :
    unmarshalURLEncode texts buffer (p :: fields) =
      (settled texts buffer p :: (unmarshalURLEncode texts buffer fields).1,
        (unmarshalURLEncode texts buffer fields).2) := by
  rcases unmarshalField_cases texts buffer p with ⟨-, hread⟩ | ⟨hnot, -⟩
  · have hsettled : (⟨p.decl, (settled texts buffer p).content⟩ : FormField α) =
        settled texts buffer p := by
      rw [← settled_decl texts buffer p]
    rw [unmarshalURLEncode, unmarshalFields, hread]
    dsimp only
    rw [hsettled]
    rfl
  · exact absurd hp hnot

theorem unmarshalURLEncode_of_not_storable (hp : ¬ Storable texts buffer p)
    (fields : List (FormField α)) :
    ∃ stop, unmarshalURLEncode texts buffer (p :: fields) = (p :: fields, some stop) ∧
      (Unparsable texts buffer p ↔ stop ≠ .panic) := by
  rcases unmarshalField_cases texts buffer p with ⟨hstorable, -⟩ | ⟨-, stop, hread, hstop⟩
  · exact absurd hstorable hp
  · refine ⟨stop, ?_, hstop⟩
    rw [unmarshalURLEncode, unmarshalFields, hread]

theorem Unparsable.not_storable (h : Unparsable texts buffer p) : ¬ Storable texts buffer p := by
  obtain ⟨val, hval, hparses⟩ := h
  exact fun hp => hparses (hp val hval).1

/-- The reading ends with an error where a text is not one of its kind, if it comes there. -/
theorem error_iff (fields : List (FormField α)) :
    (∃ message, (unmarshalURLEncode texts buffer fields).2 = some (.error message)) ↔
      ∃ before p after, fields = before ++ p :: after ∧
        (∀ q ∈ before, Storable texts buffer q) ∧ Unparsable texts buffer p := by
  induction fields with
  | nil => simp [unmarshalURLEncode, unmarshalFields]
  | cons p fields ih =>
    by_cases hp : Storable texts buffer p
    · rw [unmarshalURLEncode_of_storable hp, ih]
      constructor
      · rintro ⟨before, q, after, rfl, hbefore, hq⟩
        exact ⟨p :: before, q, after, rfl, List.forall_mem_cons.mpr ⟨hp, hbefore⟩, hq⟩
      · rintro ⟨before, q, after, heq, hbefore, hq⟩
        cases before with
        | nil =>
          obtain ⟨rfl, -⟩ := List.cons.inj heq
          exact absurd hp hq.not_storable
        | cons r before =>
          obtain ⟨rfl, hfields⟩ := List.cons.inj heq
          exact ⟨before, q, after, hfields, (List.forall_mem_cons.mp hbefore).2, hq⟩
    · obtain ⟨stop, hread, hstop⟩ := unmarshalURLEncode_of_not_storable hp fields
      rw [hread]
      constructor
      · rintro ⟨message, heq⟩
        refine ⟨[], p, fields, rfl, List.forall_mem_nil _, hstop.mpr ?_⟩
        rw [Option.some.inj heq]
        exact Stop.noConfusion
      · rintro ⟨before, q, after, heq, hbefore, hq⟩
        cases before with
        | nil =>
          obtain ⟨rfl, -⟩ := List.cons.inj heq
          cases stop with
          | error message => exact ⟨message, rfl⟩
          | panic => exact absurd rfl (hstop.mp hq)
        | cons r before =>
          obtain ⟨rfl, -⟩ := List.cons.inj heq
          exact absurd (List.forall_mem_cons.mp hbefore).1 hp

/-- A reading that does not end early settles all fields. -/
theorem unmarshalURLEncode_done (fields : List (FormField α)) :
    (unmarshalURLEncode texts buffer fields).2 = none ↔ ∀ p ∈ fields, Storable texts buffer p := by
  induction fields with
  | nil => exact iff_of_true rfl (List.forall_mem_nil _)
  | cons p fields ih =>
    rw [List.forall_mem_cons]
    by_cases hp : Storable texts buffer p
    · rw [unmarshalURLEncode_of_storable hp, ih]
      exact (and_iff_right hp).symm
    · obtain ⟨stop, hread, -⟩ := unmarshalURLEncode_of_not_storable hp fields
      rw [hread]
      exact iff_of_false (Option.some_ne_none stop) fun h => hp h.1

theorem unmarshalURLEncode_fst {fields : List (FormField α)}
    (h : ∀ p ∈ fields, Storable texts buffer p) :
    (unmarshalURLEncode texts buffer fields).1 = fields.map (settled texts buffer) := by
  induction fields with
  | nil => rfl
  | cons p fields ih =>
    obtain ⟨hp, hfields⟩ := List.forall_mem_cons.mp h
    rw [unmarshalURLEncode_of_storable hp, ih hfields]
    rfl

variable (texts buffer)

/-! ## Numbers -/

/-- The text of the field denotes a number that its kind does not have. -/
def Overflows (p : FormField α) : Prop :=
  ∃ kind n val m, p.content = .int kind n ∧ valueOf buffer (formName p.decl) = some val ∧
    integerOf val = some m ∧ ¬ kind.InRange m

/-- An integer field that occurs in the form has the number of its text afterwards. -/
def Denoted (p p' : FormField α) : Prop :=
  ∀ kind n val, p.content = .int kind n → valueOf buffer (formName p.decl) = some val →
    ∃ m, integerOf val = some m ∧ p'.content = .int kind m

/-- After a reading without error all numbers are exact; one that does not fit is an error. -/
def ExactOrRejected (fields : List (FormField α)) : Prop :=
  ((unmarshalURLEncode texts buffer fields).2 = none →
      List.Forall₂ (Denoted buffer) fields (unmarshalURLEncode texts buffer fields).1) ∧
    ((∃ p ∈ fields, Overflows buffer p) →
      ∃ message, (unmarshalURLEncode texts buffer fields).2 = some (.error message))

variable {texts buffer}

theorem denoted_settled_iff (hp : Storable texts buffer p) :
    Denoted buffer p (settled texts buffer p) ↔ ¬ Overflows buffer p := by
  constructor
  · rintro h ⟨kind, n, val, m, hcontent, hval, hdenotes, hrange⟩
    obtain ⟨m', hdenotes', hstored⟩ := h kind n val hcontent hval
    obtain rfl := Option.some.inj (hdenotes'.symm.trans hdenotes)
    obtain ⟨iv, hparse⟩ : ∃ iv, kind.parse val = .ok iv := by
      simpa [Parses, hcontent] using (hp val hval).1
    obtain rfl : m' = iv :=
      Option.some.inj (hdenotes'.symm.trans (NumKind.integerOf_of_parse hparse))
    have hwrap : kind.wrap m' = m' := by
      simpa [settled_of_some hval, Content.stored, hcontent, hparse] using hstored
    exact hrange ((kind.wrap_eq_self_iff m').mp hwrap)
  · intro h kind n val hcontent hval
    obtain ⟨iv, hparse⟩ : ∃ iv, kind.parse val = .ok iv := by
      simpa [Parses, hcontent] using (hp val hval).1
    have hdenotes := NumKind.integerOf_of_parse hparse
    have hrange : kind.InRange iv := by
      by_contra hrange
      exact h ⟨kind, n, val, iv, hcontent, hval, hdenotes, hrange⟩
    refine ⟨iv, hdenotes, ?_⟩
    simp [settled_of_some hval, Content.stored, hcontent, hparse, (kind.wrap_eq_self_iff iv).mpr hrange]

variable (texts buffer)

theorem unmarshalURLEncode_exactOrRejected_iff (fields : List (FormField α)) :
    ExactOrRejected texts buffer fields ↔
      (∃ before p after, fields = before ++ p :: after ∧
          (∀ q ∈ before, Storable texts buffer q) ∧ Unparsable texts buffer p) ∨
        ∀ p ∈ fields, ¬ Overflows buffer p := by
  rw [← error_iff]
  constructor
  · rintro ⟨-, hrejected⟩
    by_cases hover : ∃ p ∈ fields, Overflows buffer p
    · exact .inl (hrejected hover)
    · exact .inr fun p hp h => hover ⟨p, hp, h⟩
  · rintro (⟨message, herror⟩ | hfits)
    · exact ⟨fun h => absurd (herror.symm.trans h) (Option.some_ne_none _), fun _ => ⟨message, herror⟩⟩
    · refine ⟨fun h => ?_, fun ⟨p, hp, hover⟩ => absurd hover (hfits p hp)⟩
      have hall := (unmarshalURLEncode_done fields).mp h
      rw [unmarshalURLEncode_fst hall]
      exact List.forall₂_map_right_iff.mpr (List.forall₂_same.mpr fun p hp =>
        (denoted_settled_iff (hall p hp)).mpr (hfits p hp))

def levelField : FormField Unit :=
  ⟨{ name := asciiBytes "Level", typeName := "int8" }, .int .int8 0⟩

/-- 300 is stored as 44 in eight bits. -/
theorem int8_not_exactOrRejected :
    ¬ ExactOrRejected noFloats (asciiBytes "level=300") [levelField] := by
  rintro ⟨-, hrejected⟩
  have hover : Overflows (asciiBytes "level=300") levelField :=
    ⟨.int8, 0, asciiBytes "300", 300, rfl, by decide +kernel, by decide, by decide⟩
  obtain ⟨message, herror⟩ := hrejected ⟨_, List.mem_cons_self, hover⟩
  revert herror
  have hread : (unmarshalURLEncode noFloats (asciiBytes "level=300") [levelField]).2 = none := by
    decide +kernel
  rw [hread]
  exact fun h => absurd h.symm (Option.some_ne_none _)

/-! ## Excluded fields -/

def IsKey (buffer name : Bytes) : Prop :=
  ∃ piece ∈ buffer.splitOn ampersand, pieceName piece = name

/-- A field that is excluded by its tag, or that does not occur in the form, is as it was. -/
def Untouched (p p' : FormField α) : Prop :=
  p'.decl = p.decl ∧
    (formTag p.decl = asciiBytes "-" ∨ ¬ IsKey buffer (formName p.decl) → p' = p)

/-- The text under the name of the tag is another value for the field. -/
def Alters (p : FormField α) : Prop :=
  ∃ val, valueOf buffer (asciiBytes "-") = some val ∧ p.content.stored texts val ≠ p.content

variable {texts buffer}

theorem valueOf_eq_none_iff {name : Bytes} : valueOf buffer name = none ↔ ¬ IsKey buffer name := by
  simp [valueOf, IsKey]

theorem formName_of_excluded {d : FieldDecl} (h : formTag d = asciiBytes "-") :
    formName d = asciiBytes "-" := by
  rw [formName, h, if_neg (by decide)]
  decide

theorem untouched_settled_iff :
    Untouched buffer p (settled texts buffer p) ↔
      (formTag p.decl = asciiBytes "-" → ¬ Alters texts buffer p) := by
  cases hval : valueOf buffer (formName p.decl) with
  | none =>
    rw [settled_of_none hval]
    refine iff_of_true ⟨rfl, fun _ => rfl⟩ ?_
    rintro htag ⟨val, hdash, -⟩
    rw [formName_of_excluded htag, hdash] at hval
    exact absurd hval (Option.some_ne_none val)
  | some val =>
    have hkey : IsKey buffer (formName p.decl) := by
      by_contra hkey
      exact absurd (hval.symm.trans (valueOf_eq_none_iff.mpr hkey)) (Option.some_ne_none val)
    rw [settled_of_some hval]
    constructor
    · rintro ⟨-, hkept⟩ htag ⟨val', hdash, hdiffers⟩
      rw [formName_of_excluded htag, hdash] at hval
      obtain rfl := Option.some.inj hval
      exact hdiffers (congrArg FormField.content (hkept (.inl htag)))
    · refine fun h => ⟨rfl, fun hor => ?_⟩
      have htag := hor.resolve_right fun hnot => hnot hkey
      have hsame : p.content.stored texts val = p.content := by
        by_contra hdiffers
        exact h htag ⟨val, formName_of_excluded htag ▸ hval, hdiffers⟩
      rw [hsame]

/-- A property of all places of a list, at its head and behind it. -/
theorem forall_split_cons {β : Type*} {x : β} {l : List β} {r : List β → β → Prop} :
    (∀ before y after, x :: l = before ++ y :: after → r before y) ↔
      r [] x ∧ ∀ before y after, l = before ++ y :: after → r (x :: before) y := by
  constructor
  · refine fun h => ⟨h [] x l rfl, fun before y after hl => h (x :: before) y after ?_⟩
    rw [hl, List.cons_append]
  · rintro ⟨hhead, htail⟩ before y after heq
    cases before with
    | nil =>
      obtain ⟨rfl, -⟩ := List.cons.inj heq
      exact hhead
    | cons z before =>
      obtain ⟨rfl, hl⟩ := List.cons.inj heq
      exact htail before y after hl

variable (texts buffer)

theorem unmarshalURLEncode_untouched_iff (fields : List (FormField α)) :
    List.Forall₂ (Untouched buffer) fields (unmarshalURLEncode texts buffer fields).1 ↔
      ∀ before p after, fields = before ++ p :: after → formTag p.decl = asciiBytes "-" →
        (∀ q ∈ before, Storable texts buffer q) → Storable texts buffer p →
          ¬ Alters texts buffer p := by
  induction fields with
  | nil => exact iff_of_true .nil fun before p after heq => by simp at heq
  | cons p fields ih =>
    rw [forall_split_cons]
    by_cases hp : Storable texts buffer p
    · rw [unmarshalURLEncode_of_storable hp, List.forall₂_cons, untouched_settled_iff, ih]
      simp [hp]
    · obtain ⟨stop, hread, -⟩ := unmarshalURLEncode_of_not_storable hp fields
      rw [hread]
      refine iff_of_true (List.forall₂_same.mpr fun q _ => ⟨rfl, fun _ => rfl⟩) ⟨?_, ?_⟩
      · exact fun _ _ h => absurd h hp
      · exact fun before q after _ _ hbefore => absurd (hbefore p List.mem_cons_self) hp

def secretField : FormField Unit :=
  ⟨{ name := asciiBytes "Secret", typeName := "string", tags := [("form", asciiBytes "-")] },
    .string []⟩

/-- A field that is never written is read under the key `-`. -/
theorem excluded_not_untouched :
    ¬ List.Forall₂ (Untouched (asciiBytes "-=x")) [secretField]
      (unmarshalURLEncode noFloats (asciiBytes "-=x") [secretField]).1 := by
  have hread : (unmarshalURLEncode noFloats (asciiBytes "-=x") [secretField]).1 =
      [⟨secretField.decl, .string (asciiBytes "x")⟩] := by decide +kernel
  rw [hread, List.forall₂_cons]
  rintro ⟨⟨-, h⟩, -⟩
  have hsame := h (.inl (by decide))
  revert hsame
  decide

end UrlEncoding
end Gocom
