import Mathlib.Data.Finset.Card
import Mathlib.Data.List.AList
import Mathlib.Tactic.SplitIfs

/-!
# Routing keys of controller methods

The methods of a controller are found by the first word of their names. The rest of a name, in
kebab case, is the name of the handler, and the map of the handlers is keyed by it. Names that are
spelled differently can be one in kebab case; the map keeps the last of their methods.
-/

namespace Gocom

abbrev Runes := List Char

/-- `unicode.ToLower`: the small letters of ASCII, and only the dot itself becomes a dot. -/
structure UnicodeLower where
  toLower : Char → Char
  ascii : ∀ c, c.toNat < 128 → toLower c = c.toLower
  dot : ∀ c, toLower c = '.' → c = '.'

/-- `strings.ToLower`. -/
def UnicodeLower.lower (l : UnicodeLower) (s : Runes) : Runes := s.map l.toLower

/-- `strings.Replace` of the first occurrence of a text that is not empty. -/
def replaceFirst (old new : Runes) : Runes → Runes
  | [] => []
  | c :: s =>
    if old <+: c :: s then new ++ (c :: s).drop old.length else c :: replaceFirst old new s

/-- `d >= 'A' && d <= 'Z'`. -/
def IsCapital (d : Char) : Prop := 'A' ≤ d ∧ d ≤ 'Z'

instance (d : Char) : Decidable (IsCapital d) := inferInstanceAs (Decidable (_ ∧ _))

/-- The loop of `KebabCaseString`: whether a rune has been read, and whether one other than a hyphen
or an underscore has. -/
def kebabData : Bool → Bool → Runes → Runes
  | _, _, [] => []
  | i, j, d :: s =>
    let hyphen := if i ∧ IsCapital d ∧ j then ['-'] else []
    if d = '_' then hyphen ++ '-' :: kebabData true j s
    else hyphen ++ d :: kebabData true (j || d ≠ '-') s

def kebabCaseString (l : UnicodeLower) (s : Runes) : Runes := l.lower (kebabData false false s)

/-- The loop of `CamelCaseSlices`: the slice that is read, and whether it may end. -/
def camelSlices : Runes → Bool → Runes → List Runes
  | slice, _, [] => if slice = [] then [] else [slice]
  | slice, jj, d :: s =>
    if IsCapital d ∧ jj then slice :: camelSlices [d] false s else camelSlices (slice ++ [d]) true s

def camelCaseSlices (s : Runes) : List Runes := camelSlices [] false s

/-! ## Handlers -/

def handlerPrefixes : List (Runes × Runes) :=
  [("Handler".toList, "POST".toList), ("Handle".toList, "POST".toList),
    ("Get".toList, "GET".toList), ("Post".toList, "POST".toList), ("Put".toList, "PUT".toList),
    ("Patch".toList, "PATCH".toList), ("Delete".toList, "DELETE".toList),
    ("Option".toList, "OPTION".toList), ("Head".toList, "HEAD".toList)]

/-- `HandlerPrefix`. -/
def handlerPrefix (piece : Runes) : Option Runes := handlerPrefixes.lookup piece

def skipControllerHanderNames : List Runes :=
  ["GetName".toList, "SetName".toList, "GetTopicCategory".toList, "SetTopicCategory".toList,
    "afterAnalyzedHandlers".toList, "GetFilters".toList, "GetVisitors".toList,
    "GetObservers".toList, "GetDelegates".toList]

/-- A method and the numbers of its parameters. Its name is an identifier, so it has no dot. -/
structure ControllerMethod where
  name : Runes
  numIn : ℕ
  numOut : ℕ
  dotless : '.' ∉ name
deriving DecidableEq

/-- A type of controllers; no two methods of a type have one name. -/
structure ControllerType where
  name : Runes
  methods : List ControllerMethod
  nodup : (methods.map (·.name)).Nodup

/-- What is kept of a method in the map of the handlers. -/
structure HandlerEntry where
  name : Runes
  group : Runes
  routingKey : Runes
  allowsMethod : Runes
  caller : ControllerMethod

variable (l : UnicodeLower)

def ControllerType.handleGroup (c : ControllerType) : Runes :=
  kebabCaseString l (replaceFirst "Controller".toList [] c.name)

namespace ControllerMethod

/-- The first word of the name. -/
def piece (m : ControllerMethod) : Runes := (camelCaseSlices m.name).headD []

/-- The name of the handler of a method whose prefix stands for this HTTP method. -/
def handlerName (m : ControllerMethod) (handlerMethod : Runes) : Runes :=
  let handlerName := kebabCaseString l (m.name.drop m.piece.length)
  if handlerName = [] then l.lower handlerMethod else handlerName

/-- The end of the routing key. -/
def keySuffix (piece handlerMethod : Runes) : Runes :=
  if piece = "Handler".toList ∨ piece = "Handle".toList then [] else '.' :: l.lower handlerMethod

def newHandler (group : Runes) (m : ControllerMethod) (handlerMethod : Runes) : HandlerEntry where
  name := m.handlerName l handlerMethod
  group
  routingKey := group ++ '.' :: m.handlerName l handlerMethod ++ keySuffix l m.piece handlerMethod
  allowsMethod := handlerMethod
  caller := m

/-- The handler of a method, if it is one. -/
def analyze (group : Runes) (m : ControllerMethod) : Option HandlerEntry :=
  if m.name ∈ skipControllerHanderNames then none
  else
    match handlerPrefix m.piece with
    | none => none
    | some handlerMethod =>
      if m.numOut > 2 then none
      else if m.numIn > 2 then none
      else some (m.newHandler l group handlerMethod)

end ControllerMethod

abbrev HandlerMap := AList fun _ : Runes => HandlerEntry

def addHandler (group : Runes) (acc : HandlerMap × List Runes) (m : ControllerMethod) :
    HandlerMap × List Runes :=
  match m.analyze l group with
  | none => acc
  | some h => (acc.1.insert h.routingKey h, acc.2 ++ [h.name])

/-- The map of the handlers, and their names. -/
def analyzeControllerHandlers (c : ControllerType) : HandlerMap × List Runes :=
  c.methods.foldl (addHandler l (c.handleGroup l)) (∅, [])

/-! ## The map of the handlers -/

namespace ControllerMethod

/-- A method with a known prefix, not to be skipped, with at most two inputs and two outputs. -/
def Eligible (m : ControllerMethod) : Prop :=
  m.name ∉ skipControllerHanderNames ∧ (handlerPrefix m.piece).isSome ∧ m.numIn ≤ 2 ∧ m.numOut ≤ 2

instance (m : ControllerMethod) : Decidable m.Eligible :=
  inferInstanceAs (Decidable (_ ∧ _ ∧ _ ∧ _))

/-- The HTTP method that the prefix of a handler stands for. -/
def allowsMethod (m : ControllerMethod) : Runes := (handlerPrefix m.piece).getD []

def entry (group : Runes) (m : ControllerMethod) : HandlerEntry :=
  m.newHandler l group m.allowsMethod

theorem analyze_eq (group : Runes) (m : ControllerMethod) :
    m.analyze l group = if m.Eligible then some (m.entry l group) else none := by
  rw [analyze, entry, allowsMethod]
  by_cases heligible : m.Eligible
  · obtain ⟨hskip, hprefix, hin, hout⟩ := id heligible
    obtain ⟨handlerMethod, hmethod⟩ := Option.isSome_iff_exists.mp hprefix
    rw [if_pos heligible, if_neg hskip, hmethod]
    dsimp only
    rw [if_neg (Nat.not_lt.mpr hout), if_neg (Nat.not_lt.mpr hin)]
    rfl
  · rw [if_neg heligible]
    by_cases hskip : m.name ∈ skipControllerHanderNames
    · rw [if_pos hskip]
    · rw [if_neg hskip]
      cases hmethod : handlerPrefix m.piece with
      | none => rfl
      | some handlerMethod =>
        dsimp only
        split_ifs with hout hin
        · rfl
        · rfl
        · exact absurd ⟨hskip, Option.isSome_of_eq_some hmethod, Nat.not_lt.mp hin,
            Nat.not_lt.mp hout⟩ heligible

end ControllerMethod

def ControllerType.eligible (c : ControllerType) : List ControllerMethod :=
  c.methods.filter (·.Eligible)

/-- The map with the handlers of these methods. -/
def storeAll (group : Runes) (result : HandlerMap) (ms : List ControllerMethod) : HandlerMap :=
  ms.foldl (fun result m => result.insert (m.entry l group).routingKey (m.entry l group)) result

theorem foldl_addHandler (group : Runes) (acc : HandlerMap × List Runes)
    (ms : List ControllerMethod) :
    (ms.foldl (addHandler l group) acc).1 = storeAll l group acc.1 (ms.filter (·.Eligible)) := by
  induction ms generalizing acc with
  | nil => rfl
  | cons m ms ih =>
    rw [List.foldl_cons, ih, addHandler, ControllerMethod.analyze_eq]
    by_cases heligible : m.Eligible
    · have hfilter : (m :: ms).filter (·.Eligible) = m :: ms.filter (·.Eligible) :=
        List.filter_cons_of_pos (decide_eq_true heligible)
      rw [if_pos heligible, hfilter]
      rfl
    · have hfilter : (m :: ms).filter (·.Eligible) = ms.filter (·.Eligible) :=
        List.filter_cons_of_neg (by simpa using heligible)
      rw [if_neg heligible, hfilter]

theorem mem_storeAll_keys (group : Runes) (result : HandlerMap) (ms : List ControllerMethod)
    (key : Runes) : key ∈ (storeAll l group result ms).keys ↔
      key ∈ (ms.map fun m => (m.entry l group).routingKey) ∨ key ∈ result.keys := by
  induction ms generalizing result with
  | nil => simp [storeAll]
  | cons m ms ih =>
    rw [storeAll, List.foldl_cons]
    refine (ih _).trans ?_
    rw [List.map_cons, List.mem_cons, AList.keys_insert, List.mem_cons]
    by_cases hkey : key = (m.entry l group).routingKey
    · simp [hkey]
    · simp [hkey, List.mem_erase_of_ne]

/-- The map has as many entries as there are different keys. -/
theorem storeAll_length_eq_iff (group : Runes) (ms : List ControllerMethod) :
    (storeAll l group ∅ ms).entries.length = ms.length ↔
      (ms.map fun m => (m.entry l group).routingKey).Nodup := by
  have hkeys : (storeAll l group ∅ ms).keys.toFinset =
      (ms.map fun m => (m.entry l group).routingKey).toFinset := by
    ext key
    rw [List.mem_toFinset, List.mem_toFinset, mem_storeAll_keys]
    simp
  have hcard := List.toFinset_card_of_nodup (storeAll l group ∅ ms).keys_nodup
  rw [hkeys, AList.keys, List.keys, List.length_map] at hcard
  have hnodup := Multiset.toFinset_card_eq_card_iff_nodup
    (m := (ms.map fun m => (m.entry l group).routingKey : Multiset Runes))
  rw [← hcard]
  simpa using hnodup

/-- No method is lost just if no two have one key. -/
theorem entries_length_eq_iff (c : ControllerType) :
    (analyzeControllerHandlers l c).1.entries.length = c.eligible.length ↔
      ∀ m ∈ c.eligible, ∀ m' ∈ c.eligible, (m.entry l (c.handleGroup l)).routingKey =
        (m'.entry l (c.handleGroup l)).routingKey → m = m' := by
  have hnodup : c.eligible.Nodup := c.nodup.of_map.filter _
  rw [analyzeControllerHandlers, foldl_addHandler]
  exact (storeAll_length_eq_iff l _ _).trans (List.nodup_map_iff_inj_on hnodup)

/-! ## Equal keys -/

/-- Two texts without a dot, each followed by nothing or a dot, can be read off what they begin. -/
theorem dotless_append_inj {a b x y : Runes} (ha : '.' ∉ a) (hb : '.' ∉ b)
    (hx : x.head? = none ∨ x.head? = some '.') (hy : y.head? = none ∨ y.head? = some '.') :
    a ++ x = b ++ y ↔ a = b ∧ x = y := by
  have htake : ∀ {a x : Runes}, '.' ∉ a → (x.head? = none ∨ x.head? = some '.') →
      (a ++ x).takeWhile (· ≠ '.') = a := by
    intro a x ha hx
    have hnone : x.takeWhile (· ≠ '.') = [] := by
      cases x with
      | nil => rfl
      | cons c x =>
        obtain hnil | hdot := hx
        · cases hnil
        · obtain rfl : c = '.' := Option.some.inj hdot
          rfl
    rw [List.takeWhile_append_of_pos fun c hc => decide_eq_true (ne_of_mem_of_not_mem hc ha),
      hnone, List.append_nil]
  constructor
  · intro h
    have hab : a = b := by rw [← htake ha hx, h, htake hb hy]
    exact ⟨hab, List.append_cancel_left (hab ▸ h)⟩
  · rintro ⟨rfl, rfl⟩
    rfl

variable {l}

theorem dotless_lower {s : Runes} (h : '.' ∉ s) : '.' ∉ l.lower s := by
  intro hmem
  obtain ⟨c, hc, hdot⟩ := List.mem_map.mp hmem
  exact h (l.dot c hdot ▸ hc)

theorem dotless_kebabData {s : Runes} (h : '.' ∉ s) (i j : Bool) : '.' ∉ kebabData i j s := by
  induction s generalizing i j with
  | nil => exact List.not_mem_nil
  | cons d s ih =>
    obtain ⟨hd, hs⟩ := not_or.mp (List.mem_cons.not.mp h)
    rw [kebabData]
    split_ifs <;> simp [hd, ih hs]

/-- The text in ASCII is the same for every letter table. -/
theorem lower_of_ascii {s : Runes} (h : ∀ c ∈ s, c.toNat < 128) : l.lower s = s.map Char.toLower :=
  List.map_congr_left fun c hc => l.ascii c (h c hc)

/-- Equal prefixes, or the two that leave the HTTP method out of the key. -/
def SameFamily (piece piece' : Runes) : Prop :=
  piece = piece' ∨ piece ∈ ["Handler".toList, "Handle".toList] ∧
    piece' ∈ ["Handler".toList, "Handle".toList]

instance (piece piece' : Runes) : Decidable (SameFamily piece piece') :=
  inferInstanceAs (Decidable (_ ∨ _ ∧ _))

theorem mem_handlerPrefixes {piece handlerMethod : Runes}
    (h : handlerPrefix piece = some handlerMethod) : (piece, handlerMethod) ∈ handlerPrefixes := by
  obtain ⟨before, after, htable, -⟩ := List.lookup_eq_some_iff.mp h
  rw [htable]
  exact List.mem_append_right _ List.mem_cons_self

theorem handlerPrefixes_ascii : ∀ e ∈ handlerPrefixes, ∀ c ∈ e.2, c.toNat < 128 ∧ c ≠ '.' := by
  have hall : (handlerPrefixes.all fun e => e.2.all fun c => c.toNat < 128 ∧ c ≠ '.') = true := by
    decide
  intro e he c hc
  exact of_decide_eq_true (List.all_eq_true.mp (List.all_eq_true.mp hall e he) c hc)

theorem toLower_of_not_capital {d : Char} (h : ¬ IsCapital d) : d.toLower = d := dif_neg h

theorem toLower_val {d : Char} (h : IsCapital d) : d.toLower.val = d.val + ('a'.val - 'A'.val) :=
  congrArg Char.val (dif_pos h)

/-- A capital letter becomes a code above that of the dot. -/
theorem eq_dot_of_toLower {d : Char} (h : d.toLower = '.') : d = '.' := by
  by_cases hcapital : IsCapital d
  · have hval := toLower_val hcapital
    rw [h] at hval
    have hcode := congrArg UInt32.toNat hval
    have hle := UInt32.le_iff_toNat_le.mp hcapital.1
    have hge := UInt32.le_iff_toNat_le.mp hcapital.2
    simp at hcode hle hge
    omega
  · rwa [toLower_of_not_capital hcapital] at h

/-- The letters of ASCII. -/
def asciiLower : UnicodeLower where
  toLower := Char.toLower
  ascii _ _ := rfl
  dot _ h := eq_dot_of_toLower h

namespace ControllerMethod

theorem keySuffix_eq_iff {piece piece' handlerMethod handlerMethod' : Runes}
    (h : handlerPrefix piece = some handlerMethod)
    (h' : handlerPrefix piece' = some handlerMethod') :
    keySuffix l piece handlerMethod = keySuffix l piece' handlerMethod' ↔
      SameFamily piece piece' := by
  have htable : ∀ e ∈ handlerPrefixes, ∀ e' ∈ handlerPrefixes,
      keySuffix asciiLower e.1 e.2 = keySuffix asciiLower e'.1 e'.2 ↔ SameFamily e.1 e'.1 := by
    decide
  have hascii : ∀ e ∈ handlerPrefixes, keySuffix l e.1 e.2 = keySuffix asciiLower e.1 e.2 := by
    intro e he
    rw [keySuffix, keySuffix, lower_of_ascii fun c hc => (handlerPrefixes_ascii e he c hc).1]
    rfl
  have hmem := mem_handlerPrefixes h
  have hmem' := mem_handlerPrefixes h'
  rw [hascii _ hmem, hascii _ hmem', htable _ hmem _ hmem']

theorem keySuffix_head (piece handlerMethod : Runes) :
    (keySuffix l piece handlerMethod).head? = none ∨
      (keySuffix l piece handlerMethod).head? = some '.' := by
  rw [keySuffix]
  split_ifs
  · exact .inl rfl
  · exact .inr rfl

theorem Eligible.handlerPrefix_eq {m : ControllerMethod} (h : m.Eligible) :
    handlerPrefix m.piece = some m.allowsMethod := by
  obtain ⟨handlerMethod, hmethod⟩ := Option.isSome_iff_exists.mp h.2.1
  rw [allowsMethod, hmethod]
  rfl

theorem Eligible.dotless_handlerName {m : ControllerMethod} (h : m.Eligible) :
    '.' ∉ m.handlerName l m.allowsMethod := by
  rw [handlerName]
  split_ifs
  · have hmem := mem_handlerPrefixes h.handlerPrefix_eq
    exact dotless_lower fun hdot => (handlerPrefixes_ascii _ hmem _ hdot).2 rfl
  · exact dotless_lower (dotless_kebabData (fun hdot => m.dotless (List.mem_of_mem_drop hdot)) _ _)

/-- The prefixes are of one family, and the rests are one in kebab case; a rest that is empty
counts as the HTTP method. -/
def Alike (l : UnicodeLower) (m m' : ControllerMethod) : Prop :=
  SameFamily m.piece m'.piece ∧
    m.handlerName l m.allowsMethod = m'.handlerName l m'.allowsMethod

theorem routingKey_eq_iff {m m' : ControllerMethod} (h : m.Eligible) (h' : m'.Eligible)
    (group : Runes) :
    (m.entry l group).routingKey = (m'.entry l group).routingKey ↔ Alike l m m' := by
  rw [Alike, ← keySuffix_eq_iff (l := l) h.handlerPrefix_eq h'.handlerPrefix_eq, and_comm,
    ← dotless_append_inj h.dotless_handlerName h'.dotless_handlerName (keySuffix_head _ _)
      (keySuffix_head _ _)]
  simp [entry, newHandler]

end ControllerMethod

/-- The map has one entry for each eligible method. -/
def LosesNone (l : UnicodeLower) (c : ControllerType) : Prop :=
  (analyzeControllerHandlers l c).1.entries.length = c.eligible.length

theorem losesNone_iff_eligible (c : ControllerType) :
    LosesNone l c ↔ ∀ m ∈ c.eligible, ∀ m' ∈ c.eligible, m.Alike l m' → m = m' := by
  rw [LosesNone, entries_length_eq_iff]
  refine forall₂_congr fun m hm => forall₂_congr fun m' hm' => ?_
  have heligible : m.Eligible := of_decide_eq_true (List.mem_filter.mp hm).2
  have heligible' : m'.Eligible := of_decide_eq_true (List.mem_filter.mp hm').2
  rw [ControllerMethod.routingKey_eq_iff heligible heligible']

/-- Every eligible method of a controller has its own entry exactly when no two of them have
prefixes of one family and rests that are one in kebab case. -/
theorem losesNone_iff (l : UnicodeLower) (c : ControllerType) :
    LosesNone l c ↔ ∀ m ∈ c.methods, ∀ m' ∈ c.methods, m.Eligible → m'.Eligible →
      m.Alike l m' → m = m' := by
  rw [losesNone_iff_eligible]
  constructor
  · intro h m hm m' hm' heligible heligible'
    exact h m (List.mem_filter.mpr ⟨hm, decide_eq_true heligible⟩) m'
      (List.mem_filter.mpr ⟨hm', decide_eq_true heligible'⟩)
  · intro h m hm m' hm'
    obtain ⟨hm, heligible⟩ := List.mem_filter.mp hm
    obtain ⟨hm', heligible'⟩ := List.mem_filter.mp hm'
    exact h m hm m' hm' (of_decide_eq_true heligible) (of_decide_eq_true heligible')

/-- A controller with a method for each of the two prefixes without an HTTP method. -/
def userController : ControllerType where
  name := "userController".toList
  methods := [⟨"HandleUser".toList, 1, 1, by decide⟩, ⟨"HandlerUser".toList, 1, 1, by decide⟩]
  nodup := by decide

/-- Both methods have the key `user.user`, and the first is lost. -/
theorem userController_loses : ¬ LosesNone asciiLower userController := by
  rw [LosesNone]
  decide

/-! ## Plain names -/

/-- An ASCII letter or digit. -/
def IsPlain (d : Char) : Prop := IsCapital d ∨ 'a' ≤ d ∧ d ≤ 'z' ∨ '0' ≤ d ∧ d ≤ '9'

/-- What a rune of a rest becomes in kebab case. -/
def kebabRune (d : Char) : Runes := if IsCapital d then ['-', d.toLower] else [d.toLower]

theorem camelSlices_head {slice : Runes} (hne : slice ≠ []) (s : Runes) :
    (camelSlices slice true s).headD [] = slice ++ s.takeWhile fun d => ¬ IsCapital d := by
  induction s generalizing slice with
  | nil => rw [camelSlices, if_neg hne]; exact (List.append_nil _).symm
  | cons d s ih =>
    rw [camelSlices]
    by_cases hcapital : IsCapital d
    · rw [if_pos ⟨hcapital, rfl⟩, List.takeWhile_cons_of_neg (by simpa using hcapital)]
      exact (List.append_nil _).symm
    · rw [if_neg fun h => hcapital h.1, ih (by simp),
        List.takeWhile_cons_of_pos (by simpa using hcapital), List.append_assoc]
      rfl

namespace ControllerMethod

def rest (m : ControllerMethod) : Runes := m.name.drop m.piece.length

/-- A name is its first word and a rest that begins with a capital letter. -/
theorem name_eq (m : ControllerMethod) :
    m.name = m.piece ++ m.rest ∧ ∀ d ∈ m.rest.head?, IsCapital d := by
  rw [rest, piece]
  cases m.name with
  | nil => exact ⟨rfl, fun d hd => by cases hd⟩
  | cons c s =>
    have hpiece : (camelCaseSlices (c :: s)).headD [] =
        c :: s.takeWhile fun d => ¬ IsCapital d := by
      rw [camelCaseSlices, camelSlices, if_neg (by simp)]
      exact camelSlices_head (List.cons_ne_nil c []) s
    have hrest : (c :: s).drop (c :: s.takeWhile fun d => ¬ IsCapital d).length =
        s.dropWhile fun d => ¬ IsCapital d := by
      have hsplit := List.takeWhile_append_dropWhile (p := fun d => ¬ IsCapital d) (l := s)
      rw [List.length_cons, List.drop_succ_cons]
      exact (congrArg (List.drop _) hsplit.symm).trans List.drop_left
    rw [hpiece, hrest]
    refine ⟨congrArg (c :: ·) List.takeWhile_append_dropWhile.symm, fun d hd => ?_⟩
    have hhead := List.head?_dropWhile_not (fun d => decide (¬ IsCapital d)) s
    rw [Option.mem_def.mp hd] at hhead
    simpa using hhead

end ControllerMethod

theorem IsPlain.ascii {d : Char} (h : IsPlain d) : d.toNat < 128 := by
  obtain ⟨-, h⟩ | ⟨-, h⟩ | ⟨-, h⟩ := h <;>
    exact Nat.lt_of_le_of_lt (UInt32.le_iff_toNat_le.mp h) (by decide)

theorem IsPlain.ne {d : Char} (h : IsPlain d) : d ≠ '_' ∧ d ≠ '-' := by
  constructor <;>
    · rintro rfl
      exact absurd h (by unfold IsPlain; decide)

theorem kebabRune_of_not_capital {d : Char} (h : ¬ IsCapital d) : kebabRune d = [d] := by
  rw [kebabRune, if_neg h, toLower_of_not_capital h]

/-- Capital letters have different small letters. -/
theorem toLower_inj {d d' : Char} (h : IsCapital d) (h' : IsCapital d')
    (heq : d.toLower = d'.toLower) : d = d' := by
  have hsum := congrArg Char.val heq
  rw [toLower_val h, toLower_val h'] at hsum
  exact Char.ext ((UInt32.add_left_inj _).mp hsum)

/-- A plain text can be read back from its kebab case. -/
theorem flatMap_kebabRune_inj {s s' : Runes} (h : ∀ d ∈ s, IsPlain d) (h' : ∀ d ∈ s', IsPlain d)
    (heq : s.flatMap kebabRune = s'.flatMap kebabRune) : s = s' := by
  induction s generalizing s' with
  | nil =>
    cases s' with
    | nil => rfl
    | cons d' s' =>
      rw [List.flatMap_cons, kebabRune] at heq
      split_ifs at heq <;> cases heq
  | cons d s ih =>
    obtain ⟨hd, hs⟩ := List.forall_mem_cons.mp h
    cases s' with
    | nil =>
      rw [List.flatMap_cons, kebabRune] at heq
      split_ifs at heq <;> cases heq
    | cons d' s' =>
      obtain ⟨hd', hs'⟩ := List.forall_mem_cons.mp h'
      rw [List.flatMap_cons, List.flatMap_cons] at heq
      by_cases hcapital : IsCapital d <;> by_cases hcapital' : IsCapital d'
      · rw [kebabRune, kebabRune, if_pos hcapital, if_pos hcapital'] at heq
        obtain ⟨-, heq⟩ := List.cons_eq_cons.mp heq
        obtain ⟨hlower, heq⟩ := List.cons_eq_cons.mp heq
        rw [toLower_inj hcapital hcapital' hlower, ih hs hs' heq]
      · rw [kebabRune, if_pos hcapital, kebabRune_of_not_capital hcapital'] at heq
        exact absurd (List.cons_eq_cons.mp heq).1.symm hd'.ne.2
      · rw [kebabRune_of_not_capital hcapital, kebabRune, if_pos hcapital'] at heq
        exact absurd (List.cons_eq_cons.mp heq).1 hd.ne.2
      · rw [kebabRune_of_not_capital hcapital, kebabRune_of_not_capital hcapital'] at heq
        obtain ⟨rfl, htail⟩ := List.cons_eq_cons.mp heq
        rw [ih hs hs' htail]

theorem lower_kebabData {s : Runes} (h : ∀ d ∈ s, IsPlain d) :
    l.lower (kebabData true true s) = s.flatMap kebabRune := by
  induction s with
  | nil => rfl
  | cons d s ih =>
    obtain ⟨hd, hs⟩ := List.forall_mem_cons.mp h
    have hlower : l.toLower d = d.toLower := l.ascii d hd.ascii
    have hhyphen : l.toLower '-' = '-' := l.ascii '-' (by decide)
    rw [List.flatMap_cons, ← ih hs, kebabData, if_neg hd.ne.1, kebabRune]
    by_cases hcapital : IsCapital d
    · simp [hcapital, UnicodeLower.lower, hlower, hhyphen]
    · simp [hcapital, UnicodeLower.lower, hlower]

/-- The kebab case of a plain rest. -/
theorem kebabCaseString_cons {c : Char} {s : Runes} (hc : IsCapital c) (h : ∀ d ∈ s, IsPlain d) :
    kebabCaseString l (c :: s) = c.toLower :: s.flatMap kebabRune := by
  have hplain : IsPlain c := .inl hc
  rw [kebabCaseString, kebabData, if_neg hplain.ne.1, ← lower_kebabData (l := l) h]
  simp [UnicodeLower.lower, l.ascii c hplain.ascii, hplain.ne.2]

/-- Plain rests that are one in kebab case are one. -/
theorem kebabCaseString_inj {c c' : Char} {s s' : Runes} (hc : IsCapital c) (hc' : IsCapital c')
    (h : ∀ d ∈ s, IsPlain d) (h' : ∀ d ∈ s', IsPlain d)
    (heq : kebabCaseString l (c :: s) = kebabCaseString l (c' :: s')) : c :: s = c' :: s' := by
  rw [kebabCaseString_cons hc h, kebabCaseString_cons hc' h'] at heq
  obtain ⟨hhead, htail⟩ := List.cons_eq_cons.mp heq
  rw [toLower_inj hc hc' hhead, flatMap_kebabRune_inj h h' htail]

/-- With plain names, none of them a prefix only, and with one prefix of each family, no method is
lost. -/
theorem losesNone_of_plain {c : ControllerType}
    (hplain : ∀ m ∈ c.eligible, m.rest ≠ [] ∧ ∀ d ∈ m.rest, IsPlain d)
    (hfamily : ∀ m ∈ c.eligible, ∀ m' ∈ c.eligible, SameFamily m.piece m'.piece →
      m.piece = m'.piece) : LosesNone l c := by
  have hrest : ∀ m ∈ c.eligible, ∃ d s, m.rest = d :: s ∧ IsCapital d ∧ (∀ e ∈ s, IsPlain e) ∧
      m.handlerName l m.allowsMethod = kebabCaseString l (d :: s) := by
    intro m hm
    obtain ⟨hne, hall⟩ := hplain m hm
    obtain ⟨d, s, hds⟩ := List.exists_cons_of_ne_nil hne
    have hcapital : IsCapital d := m.name_eq.2 d (by rw [hds]; rfl)
    have htail : ∀ e ∈ s, IsPlain e := fun e he => hall e (by rw [hds]; exact .tail d he)
    refine ⟨d, s, hds, hcapital, htail, ?_⟩
    have hkebab : kebabCaseString l (m.name.drop m.piece.length) = kebabCaseString l (d :: s) :=
      congrArg (kebabCaseString l) hds
    rw [ControllerMethod.handlerName, hkebab, kebabCaseString_cons hcapital htail]
    exact if_neg (List.cons_ne_nil _ _)
  refine (losesNone_iff_eligible c).mpr fun m hm m' hm' ⟨hsame, hname⟩ => ?_
  obtain ⟨d, s, hds, hcapital, hs, hkebab⟩ := hrest m hm
  obtain ⟨d', s', hds', hcapital', hs', hkebab'⟩ := hrest m' hm'
  have hnames : m.name = m'.name := by
    rw [m.name_eq.1, m'.name_eq.1, hfamily m hm m' hm' hsame, hds, hds',
      kebabCaseString_inj hcapital hcapital' hs hs' (hkebab.symm.trans (hname.trans hkebab'))]
  exact List.inj_on_of_nodup_map c.nodup (List.mem_of_mem_filter hm) (List.mem_of_mem_filter hm')
    hnames

end Gocom
