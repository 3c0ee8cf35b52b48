import Gocom.BinaryFields
import Gocom.GoMaps

/-!
# Decoding of multipart responses

The binary fields are found before anything is read. Then the parts are read in order: XML parts are
decoded into the data, the others are kept under their content IDs. At last each binary field gets the
content of the part that it refers to.
-/

namespace Gocom

/-- A part; a missing header is empty. The reading of the body can fail at its end. -/
structure Part where
  contentType : Bytes
  contentID : Bytes
  body : Bytes
  failure : Option String := none

/-- A response body: the parts up to its end or to a failure. -/
structure Multipart where
  parts : List Part
  failure : Option String := none

def Part.id (p : Part) : Bytes := trimBrackets p.contentID

def Part.package (p : Part) : Binary := { content := some p.body, contentType := p.contentType }

namespace Mtom

def xopType : Bytes := asciiBytes "application/xop+xml"

/-- What has been read: what the XML decoder did, and the parts by their content IDs. -/
structure Reading where
  actions : List XmlAction
  packages : GoMap Bytes Binary

inductive Outcome where
  | error (message : String)
  | panics
  | success (heap : Heap)

section Decoding

-- what the XML decoder does with a part, and its error
variable (decodeXml : Part → Option Datum → Heap → List XmlAction × Option String) (heap : Heap) (v : Option Datum)

def readPart (r : Reading) (p : Part) : Except String Reading :=
  if p.contentType = xopType then
    match decodeXml p v (heap.run r.actions) with
    | (_, some err) => .error err
    | (actions, none) => .ok { r with actions := r.actions ++ actions }
  else if p.contentID = [] then .error "Invalid multipart content ID"
  else
    match p.failure with
    | some err => .error err
    | none => .ok { r with packages := r.packages.store p.id p.package }

/-- The loop over the parts. -/
def readParts : List Part → Reading → Except String Reading
  | [], r => .ok r
  | p :: parts, r =>
    match readPart decodeXml heap v r p with
    | .error err => .error err
    | .ok r => readParts parts r

def readBody (body : Multipart) : Except String Reading :=
  match readParts decodeXml heap v body.parts ⟨[], .empty⟩ with
  | .error err => .error err
  | .ok r =>
    match body.failure with
    | some err => .error err
    | none => .ok r

end Decoding

/-- The loop that sets the binary fields. -/
def setBinaryFields (objects : ℕ → Option Datum) (packages : GoMap Bytes Binary) :
    List FieldRef → (ℕ → Binary) → Option (ℕ → Binary)
  | [], binaries => some binaries
  | f :: fields, binaries =>
    match f.binary objects with
    | none => none
    | some a =>
      match packages (binaries a).packageID with
      | none => none
      | some pkg => setBinaryFields objects packages fields (Function.update binaries a
          { binaries a with content := pkg.content, contentType := pkg.contentType })

def setOutcome (heap : Heap) (packages : GoMap Bytes Binary) (fields : List FieldRef) : Outcome :=
  match setBinaryFields heap.objects packages fields heap.binaries with
  | none => .panics
  | some binaries => .success { heap with binaries := binaries }

end Mtom

open Mtom

/-- `mtomDecoder.Decode`, if the walk over the data ends with this fuel. -/
def mtomDecode (decodeXml : Part → Option Datum → Heap → List XmlAction × Option String) (fuel : ℕ) (heap : Heap)
    (v : Option Datum) (body : Multipart) : Option Outcome :=
  (getBinaryFields heap.objects fuel v).map fun fields =>
    match readBody decodeXml heap v body with
    | .error err => .error err
    | .ok r => setOutcome (heap.run r.actions) r.packages fields

namespace Mtom

section Reading

variable {decodeXml : Part → Option Datum → Heap → List XmlAction × Option String} {heap : Heap} {v : Option Datum}

/-- The parts that are kept. -/
def packageParts (parts : List Part) : List Part := parts.filter fun p => p.contentType ≠ xopType

theorem readPart_packages {r r' : Reading} {p : Part} (h : readPart decodeXml heap v r p = .ok r') :
    r'.packages = if p.contentType = xopType then r.packages else r.packages.store p.id p.package := by
  rw [readPart] at h
  split_ifs at h ⊢ with hxop hid
  · split at h
    · cases h
    · obtain rfl := Except.ok.inj h
      rfl
  · split at h
    · cases h
    · obtain rfl := Except.ok.inj h
      rfl

theorem readParts_packages {parts : List Part} {r r' : Reading} (h : readParts decodeXml heap v parts r = .ok r') :
    r'.packages = r.packages.storePairs ((packageParts parts).map fun p => (p.id, p.package)) := by
  induction parts generalizing r with
  | nil =>
    obtain rfl := Except.ok.inj h
    rfl
  | cons p parts ih =>
    rw [readParts] at h
    split at h
    · cases h
    · next q hq =>
      rw [ih h, readPart_packages hq, packageParts, packageParts, List.filter_cons]
      by_cases hxop : p.contentType = xopType
      · rw [if_pos hxop, if_neg (by simpa using hxop)]
      · rw [if_neg hxop, if_pos (by simpa using hxop), List.map_cons]
        rfl

theorem readBody_packages {body : Multipart} {r : Reading} (h : readBody decodeXml heap v body = .ok r) :
    r.packages = GoMap.empty.storePairs ((packageParts body.parts).map fun p => (p.id, p.package)) := by
  rw [readBody] at h
  split at h
  · cases h
  · next q hq =>
    split at h
    · cases h
    · obtain rfl := Except.ok.inj h
      exact readParts_packages hq

theorem package_of_readBody {body : Multipart} {r : Reading} (h : readBody decodeXml heap v body = .ok r)
    {id : Bytes} {pkg : Binary} (hpkg : r.packages id = some pkg) :
    ∃ p ∈ packageParts body.parts, p.id = id ∧ p.package = pkg := by
  rw [readBody_packages h] at hpkg
  rcases GoMap.mem_of_storePairs_eq_some hpkg with hmem | hempty
  · obtain ⟨p, hp, heq⟩ := List.mem_map.mp hmem
    obtain ⟨hid, hpkg⟩ := Prod.mk.inj heq
    exact ⟨p, hp, hid, hpkg⟩
  · cases hempty

theorem packages_ne_none_iff {body : Multipart} {r : Reading} (h : readBody decodeXml heap v body = .ok r)
    {id : Bytes} : r.packages id ≠ none ↔ ∃ p ∈ packageParts body.parts, p.id = id := by
  constructor
  · intro hfound
    obtain ⟨pkg, hpkg⟩ := Option.ne_none_iff_exists'.mp hfound
    obtain ⟨p, hp, hid, -⟩ := package_of_readBody h hpkg
    exact ⟨p, hp, hid⟩
  · rintro ⟨p, hp, rfl⟩
    rw [readBody_packages h]
    refine GoMap.storePairs_ne_none ?_ GoMap.empty
    rw [List.map_map]
    exact List.mem_map_of_mem hp

end Reading

/-! ## Setting the fields -/

section Setting

variable {objects : ℕ → Option Datum} {packages : GoMap Bytes Binary}

/-- A `Binary` with the content of the part that it refers to. -/
def filled (packages : GoMap Bytes Binary) (b : Binary) : Binary :=
  match packages b.packageID with
  | none => b
  | some pkg => { b with content := pkg.content, contentType := pkg.contentType }

theorem packageID_filled (b : Binary) : (filled packages b).packageID = b.packageID := by
  rw [filled]
  cases packages b.packageID <;> rfl

theorem filled_filled (b : Binary) : filled packages (filled packages b) = filled packages b := by
  rw [filled, packageID_filled]
  cases h : packages b.packageID with
  | none => rfl
  | some pkg =>
    rw [filled, h]

/-- A field that can be set. -/
def Settable (objects : ℕ → Option Datum) (packages : GoMap Bytes Binary) (binaries : ℕ → Binary) (f : FieldRef) :
    Prop :=
  ∃ a, f.binary objects = some a ∧ packages (binaries a).packageID ≠ none

theorem setBinaryFields_cons {f : FieldRef} {fields : List FieldRef} {binaries : ℕ → Binary} {a : ℕ}
    (hf : f.binary objects = some a) (hfound : packages (binaries a).packageID ≠ none) :
    setBinaryFields objects packages (f :: fields) binaries =
      setBinaryFields objects packages fields (Function.update binaries a (filled packages (binaries a))) := by
  obtain ⟨pkg, hpkg⟩ := Option.ne_none_iff_exists'.mp hfound
  rw [setBinaryFields]
  simp only [hf, hpkg, filled]

theorem packageID_update_filled (binaries : ℕ → Binary) (a x : ℕ) :
    (Function.update binaries a (filled packages (binaries a)) x).packageID = (binaries x).packageID := by
  rcases Decidable.em (x = a) with rfl | hx
  · rw [Function.update_self, packageID_filled]
  · rw [Function.update_of_ne hx]

/-- What the loop does to a `Binary`: the fields are set, in any order and however often. -/
def setBinary (objects : ℕ → Option Datum) (packages : GoMap Bytes Binary) (fields : List FieldRef)
    (binaries : ℕ → Binary) (a : ℕ) : Binary :=
  if ∃ f ∈ fields, f.binary objects = some a then filled packages (binaries a) else binaries a

theorem setBinary_cons {f : FieldRef} {fields : List FieldRef} {binaries : ℕ → Binary} {a : ℕ}
    (hf : f.binary objects = some a) :
    setBinary objects packages fields (Function.update binaries a (filled packages (binaries a))) =
      setBinary objects packages (f :: fields) binaries := by
  funext x
  rw [setBinary, setBinary]
  rcases Decidable.em (x = a) with rfl | hx
  · have hhead : ∃ g ∈ f :: fields, g.binary objects = some x := ⟨f, List.mem_cons_self, hf⟩
    rw [if_pos hhead, Function.update_self, filled_filled, ite_self]
  · have hhead : f.binary objects ≠ some x := fun heq => hx (Option.some.inj (heq.symm.trans hf))
    rw [Function.update_of_ne hx]
    simp only [List.exists_mem_cons_iff, hhead, false_or]

theorem setBinaryFields_eq_some_iff {fields : List FieldRef} {binaries b : ℕ → Binary} :
    setBinaryFields objects packages fields binaries = some b ↔
      (∀ f ∈ fields, Settable objects packages binaries f) ∧ b = setBinary objects packages fields binaries := by
  induction fields generalizing binaries with
  | nil =>
    have hnone : setBinary objects packages [] binaries = binaries := by
      funext a
      exact if_neg fun ⟨_, hf, _⟩ => List.not_mem_nil hf
    rw [hnone]
    exact ⟨fun h => ⟨List.forall_mem_nil _, (Option.some.inj h).symm⟩, fun h => congrArg some h.2.symm⟩
  | cons f fields ih =>
    rw [List.forall_mem_cons]
    by_cases hset : Settable objects packages binaries f
    · obtain ⟨a, hf, hfound⟩ := hset
      have hsettable : ∀ g, Settable objects packages (Function.update binaries a (filled packages (binaries a))) g ↔
          Settable objects packages binaries g := fun g => by
        simp only [Settable, packageID_update_filled]
      rw [setBinaryFields_cons hf hfound, ih, setBinary_cons hf]
      simp only [hsettable]
      exact and_congr_left' (and_iff_right ⟨a, hf, hfound⟩).symm
    · refine iff_of_false (fun h => hset ?_) fun h => hset h.1.1
      rw [setBinaryFields] at h
      cases hf : f.binary objects with
      | none => simp only [hf, reduceCtorEq] at h
      | some a =>
        refine ⟨a, hf, fun hnone => ?_⟩
        simp only [hf, hnone, reduceCtorEq] at h

end Setting

/-! ## What a response should give -/

/-- The content of a part with the ID. -/
def HoldsPart (body : Multipart) (id : Bytes) (content : Option Bytes) : Prop :=
  ∃ p ∈ body.parts, p.id = id ∧ content = some p.body

/-- What was decoded: each `Binary` with an include reference holds the part that this names. -/
def Complete (x : Option Datum) (body : Multipart) (actions : List XmlAction) (heap : Heap) : Prop :=
  ∀ data, x = some data → ∀ a, Reaches heap.objects data a → ∀ id, includeReference a actions = some id →
    HoldsPart body id (heap.binaries a).content

section Decoding

variable (decodeXml : Part → Option Datum → Heap → List XmlAction × Option String) (heap : Heap) (v : Option Datum)
  (body : Multipart)

/-- An error, or data that is complete. -/
def DecodesWell : Outcome → Prop
  | .error _ => True
  | .panics => False
  | .success h => ∀ r, readBody decodeXml heap v body = .ok r → Complete v body r.actions h

structure Resolvable (r : Reading) : Prop where
  /-- After the parts are read, each binary field has a `Binary` that refers to one of them. -/
  fields : ∀ f, IsBinaryField heap.objects v f → ∃ a, f.binary (heap.run r.actions).objects = some a ∧
    ∃ p ∈ packageParts body.parts, p.id = ((heap.run r.actions).binaries a).packageID
  /-- Any other `Binary` with an include reference has the content of a part already. -/
  others : ∀ data, v = some data → ∀ a, Reaches (heap.run r.actions).objects data a →
    (∀ f, IsBinaryField heap.objects v f → f.binary (heap.run r.actions).objects ≠ some a) →
    ∀ id, includeReference a r.actions = some id → HoldsPart body id ((heap.run r.actions).binaries a).content

end Decoding

section Resolving

variable {decodeXml : Part → Option Datum → Heap → List XmlAction × Option String} {heap : Heap} {v : Option Datum}
  {body : Multipart} {r : Reading} {fuel : ℕ} {fields : List FieldRef}

theorem settable_iff (hr : readBody decodeXml heap v body = .ok r) (f : FieldRef) :
    Settable (heap.run r.actions).objects r.packages (heap.run r.actions).binaries f ↔
      ∃ a, f.binary (heap.run r.actions).objects = some a ∧
        ∃ p ∈ packageParts body.parts, p.id = ((heap.run r.actions).binaries a).packageID :=
  exists_congr fun _ => and_congr_right fun _ => packages_ne_none_iff hr

/-- A `Binary` that is set holds the part of its include reference. -/
theorem holdsPart_filled (hr : readBody decodeXml heap v body = .ok r) {a : ℕ}
    (hfound : r.packages ((heap.run r.actions).binaries a).packageID ≠ none) {id : Bytes}
    (hid : includeReference a r.actions = some id) :
    HoldsPart body id (filled r.packages ((heap.run r.actions).binaries a)).content := by
  obtain ⟨pkg, hpkg⟩ := Option.ne_none_iff_exists'.mp hfound
  obtain ⟨p, hp, hpid, rfl⟩ := package_of_readBody hr hpkg
  have hpackage := (packageID_of_includeReference heap hid).1
  refine ⟨p, List.mem_of_mem_filter hp, hpid.trans hpackage, ?_⟩
  rw [filled, hpkg]
  rfl

theorem complete_setBinary_iff (hfields : getBinaryFields heap.objects fuel v = some fields)
    (hr : readBody decodeXml heap v body = .ok r)
    (hset : ∀ f ∈ fields, Settable (heap.run r.actions).objects r.packages (heap.run r.actions).binaries f) :
    Complete v body r.actions { heap.run r.actions with
        binaries := setBinary (heap.run r.actions).objects r.packages fields (heap.run r.actions).binaries } ↔
      ∀ data, v = some data → ∀ a, Reaches (heap.run r.actions).objects data a →
        (∀ f, IsBinaryField heap.objects v f → f.binary (heap.run r.actions).objects ≠ some a) →
        ∀ id, includeReference a r.actions = some id →
          HoldsPart body id ((heap.run r.actions).binaries a).content := by
  constructor
  · intro h data hv a hreach hother id hid
    have hholds := h data hv a hreach id hid
    have hunset : ¬ ∃ f ∈ fields, f.binary (heap.run r.actions).objects = some a := fun ⟨f, hf, ha⟩ =>
      hother f ((FueledWalk.mem_walk_iff hfields f).mp hf) ha
    simp only [setBinary, if_neg hunset] at hholds
    exact hholds
  · intro h data hv a hreach id hid
    simp only [setBinary]
    split_ifs with hfield
    · obtain ⟨f, hf, ha⟩ := hfield
      obtain ⟨b, hb, hfound⟩ := hset f hf
      obtain rfl := Option.some.inj (ha.symm.trans hb)
      exact holdsPart_filled hr hfound hid
    · refine h data hv a hreach (fun f hf ha => hfield ⟨f, ?_, ha⟩) id hid
      exact (FueledWalk.mem_walk_iff hfields f).mpr hf

theorem decodesWell_setOutcome_iff (hfields : getBinaryFields heap.objects fuel v = some fields)
    (hr : readBody decodeXml heap v body = .ok r) :
    DecodesWell decodeXml heap v body (setOutcome (heap.run r.actions) r.packages fields) ↔
      Resolvable heap v body r := by
  have hall : (∀ f ∈ fields, Settable (heap.run r.actions).objects r.packages (heap.run r.actions).binaries f) ↔
      ∀ f, IsBinaryField heap.objects v f → ∃ a, f.binary (heap.run r.actions).objects = some a ∧
        ∃ p ∈ packageParts body.parts, p.id = ((heap.run r.actions).binaries a).packageID :=
    forall_congr' fun f => imp_congr (FueledWalk.mem_walk_iff hfields f) (settable_iff hr f)
  rw [setOutcome]
  constructor
  · intro hwell
    split at hwell
    · exact hwell.elim
    · next binaries hset =>
      obtain ⟨hsettable, rfl⟩ := setBinaryFields_eq_some_iff.mp hset
      exact ⟨hall.mp hsettable, (complete_setBinary_iff hfields hr hsettable).mp (hwell r hr)⟩
  · rintro ⟨hresolved, hothers⟩
    have hsettable := hall.mpr hresolved
    rw [setBinaryFields_eq_some_iff.mpr ⟨hsettable, rfl⟩]
    intro r' hr'
    obtain rfl := Except.ok.inj (hr.symm.trans hr')
    exact (complete_setBinary_iff hfields hr hsettable).mpr hothers

end Resolving

end Mtom

theorem mtomDecode_decodes_iff (decodeXml : Part → Option Datum → Heap → List XmlAction × Option String)
    (heap : Heap) (v : Option Datum) (body : Multipart) :
    (∃ fuel o, mtomDecode decodeXml fuel heap v body = some o ∧ DecodesWell decodeXml heap v body o) ↔
      FueledWalk.Ends (visitFields heap.objects) v ∧
        ∀ r, readBody decodeXml heap v body = .ok r → Resolvable heap v body r := by
  constructor
  · rintro ⟨fuel, o, hdecode, hwell⟩
    obtain ⟨fields, hfields, rfl⟩ := Option.map_eq_some_iff.mp hdecode
    refine ⟨FueledWalk.ends_of_walk hfields, fun r hr => ?_⟩
    simp only [hr] at hwell
    exact (decodesWell_setOutcome_iff hfields hr).mp hwell
  · rintro ⟨hends, hresolvable⟩
    obtain ⟨fuel, fields, hfields⟩ := hends.exists_walk
    refine ⟨fuel, _, congrArg (Option.map _) hfields, ?_⟩
    cases hr : readBody decodeXml heap v body with
    | error err => exact trivial
    | ok r => exact (decodesWell_setOutcome_iff hfields hr).mpr (hresolvable r hr)

/-- The document of a response, a struct with one binary field. -/
def reportTarget : Heap where
  objects addr := if addr = 0 then some (.struct [(true, .binaryPointer none)]) else none
  binaries _ := {}

/-- The decoder finds an include of the part `data` and makes a `Binary` for it. -/
def decodeReport (_ : Part) (_ : Option Datum) (_ : Heap) : List XmlAction × Option String :=
  ([.newBinary 0, .store 0 (.struct [(true, .binaryPointer (some 0))]),
    .unmarshalBinary 0 (asciiBytes "<Include href=cid:data>") (some (asciiBytes "cid:data"))], none)

def reportBody : Multipart := ⟨[⟨asciiBytes "application/xop+xml", asciiBytes "<root>", [], none⟩], none⟩

/-- The part that the document refers to is not there. -/
theorem mtomDecode_panics :
    mtomDecode decodeReport 1 reportTarget (some (.pointer (some 0))) reportBody = some .panics ∧
      ∀ fuel o, mtomDecode decodeReport fuel reportTarget (some (.pointer (some 0))) reportBody = some o →
        ¬ DecodesWell decodeReport reportTarget (some (.pointer (some 0))) reportBody o := by
  have hpanics : mtomDecode decodeReport 1 reportTarget (some (.pointer (some 0))) reportBody = some .panics := rfl
  refine ⟨hpanics, fun fuel o ho hwell => ?_⟩
  obtain rfl : o = .panics := by
    obtain ⟨fields, hfields, rfl⟩ := Option.map_eq_some_iff.mp ho
    obtain ⟨fields', hfields', heq⟩ := Option.map_eq_some_iff.mp hpanics
    rw [FueledWalk.walk_unique hfields hfields', heq]
  exact hwell

/-- With the part the field gets its content. -/
example : ∃ h, mtomDecode decodeReport 1 reportTarget (some (.pointer (some 0)))
      ⟨reportBody.parts ++ [⟨asciiBytes "text/plain", asciiBytes "<data>", asciiBytes "text", none⟩], none⟩ =
        some (.success h) ∧
    h.binaries 0 = ⟨some (asciiBytes "text"), asciiBytes "text/plain", asciiBytes "data", true⟩ := ⟨_, rfl, rfl⟩

end Gocom
