import Gocom.ConditionKeys
import Gocom.NumberTexts

/-!
# Reading condition keys

The text of a key is read from the left as far as its names and numbers go. A string is read from
the right: what follows it in the key closes more brackets than it opens, however far one reads,
as long as only numbers less deep than the string follow.
-/

namespace Gocom

open BracketWords (Below)

/-! ## Decimal texts -/

theorem decimal_unreserved (n : ℤ) : Unreserved (asciiBytes (toString n)) := by
  intro b hb
  obtain ⟨c, hc, rfl⟩ := List.mem_map.mp hb
  have hrange := digit_range (toString_chars hc)
  have hbyte : (UInt8.ofNat c.toNat).toNat = c.toNat :=
    UInt8.toNat_ofNat_of_lt' (show c.toNat < 256 by omega)
  have hne : ∀ k : UInt8, k.toNat < 45 ∨ 57 < k.toNat → UInt8.ofNat c.toNat ≠ k := by
    rintro k hk rfl
    omega
  exact ⟨hne space (by decide), hne colon (by decide), hne opening (by decide),
    hne closing (by decide)⟩

/-! ## Numbers -/

theorem validateRequired_float {kind : NumKind} {bits : ℕ} :
    validateRequired (.scalar (.float kind bits)) = true ↔ canonicalFloat bits ≠ 0 := by
  rw [ne_eq, canonicalFloat_eq_zero, validateRequired, decide_eq_true_eq]
  tauto

namespace Value

theorem text_unreserved (texts : ValueTexts) {v : Value} (hv : v.leafKind = some .number) :
    Unreserved (texts.value v) := by
  cases v with
  | int kind n => exact decimal_unreserved n
  | float kind bits => exact texts.float_unreserved kind bits
  | _ => simp [leafKind] at hv

theorem number_injective {texts : ValueTexts} {v w : Value} (hv : v.leafKind = some .number)
    (hzero : v.zero = w.zero) (hsetv : validateRequired (.scalar v) = true)
    (hsetw : validateRequired (.scalar w) = true) (h : texts.value v = texts.value w) :
    v.condition = w.condition := by
  cases v with
  | int kind n =>
    cases w with
    | int kind' m =>
      obtain ⟨rfl, -⟩ := Value.int.inj hzero
      rw [decimal_injective h]
    | _ => simp [zero] at hzero
  | float kind x =>
    cases w with
    | float kind' y =>
      obtain ⟨rfl, -⟩ := Value.float.inj hzero
      rw [condition, condition, (texts.float_eq_iff kind x y (validateRequired_float.mp hsetv)
        (validateRequired_float.mp hsetw)).mp h]
    | _ => simp [zero] at hzero
  | _ => simp [leafKind] at hv

/-- A number or a string that is not set is zero. -/
theorem condition_of_not_set {v : Value} (hkind : v.leafKind.isSome) (hbool : v.leafKind ≠ some .bool)
    (hset : validateRequired (.scalar v) = false) : v.condition = v.zero.condition := by
  cases v with
  | int kind n =>
    have hn : n = 0 := by simpa [validateRequired] using hset
    rw [hn, zero]
  | float kind bits =>
    have hbits : canonicalFloat bits = 0 := by
      by_contra hne
      exact Bool.false_ne_true (hset.symm.trans (validateRequired_float.mpr hne))
    rw [zero, condition, condition, hbits]
    rfl
  | string s =>
    have hs : s = [] := by simpa [validateRequired] using hset
    rw [hs, zero]
  | bool b => exact absurd rfl hbool
  | _ => simp [leafKind] at hkind

end Value

/-! ## Words between the letters of a map -/

/-- What follows a value in a map. -/
def Stops (r : Bytes) : Prop := ∃ b w, r = b :: w ∧ (b = space ∨ b = closing)

/-- A number ends where the map goes on. -/
theorem Unreserved.cut {t u r s : Bytes} (ht : Unreserved t) (hu : Unreserved u) (hr : Stops r)
    (hs : Stops s) (h : t ++ r = u ++ s) : t = u ∧ r = s := by
  have hstop : ∀ {w x y z : Bytes}, Unreserved w → Stops y → w = x ++ z → z ≠ [] →
      ¬ ∃ y', y = z ++ y' := by
    rintro w x y z hw ⟨b, y, rfl, hb⟩ rfl hz ⟨y', hy⟩
    cases z with
    | nil => exact hz rfl
    | cons c z =>
      obtain ⟨rfl, -⟩ := List.cons.inj hy
      have hc := hw b (List.mem_append_right x List.mem_cons_self)
      rcases hb with rfl | rfl
      · exact hc.1 rfl
      · exact hc.2.2.2 rfl
  rcases List.append_eq_append_iff.mp h with ⟨x, rfl, rfl⟩ | ⟨x, rfl, rfl⟩
  · rcases eq_or_ne x [] with rfl | hx
    · simp
    · exact absurd ⟨s, rfl⟩ (hstop hu hr rfl hx)
  · rcases eq_or_ne x [] with rfl | hx
    · simp
    · exact absurd ⟨r, rfl⟩ (hstop ht hs rfl hx)

theorem Unreserved.plain {w : Bytes} (hw : Unreserved w) : BracketWords.Plain opening closing w :=
  fun b hb => (hw b hb).2.2

/-- Each entry behind a space. -/
def spaced (entries : List (Bytes × Bytes)) : Bytes :=
  entries.flatMap fun p => space :: (p.1 ++ colon :: p.2)

theorem join_spaced {entries : List (Bytes × Bytes)} (h : entries ≠ []) :
    space :: join (entries.map fun p => p.1 ++ asciiBytes ":" ++ p.2) " " = spaced entries := by
  have hcolon : asciiBytes ":" = [colon] := by decide
  have hspace : asciiBytes " " = [space] := by decide
  induction entries with
  | nil => exact absurd rfl h
  | cons p rest ih =>
    cases rest with
    | nil => simp [join, spaced, hcolon]
    | cons q rest =>
      have hrest := ih (by simp)
      rw [spaced, List.flatMap_cons, ← spaced, ← hrest]
      simp [join, hcolon, hspace, List.intercalate]

theorem spaced_stops (entries : List (Bytes × Bytes)) (r : Bytes) :
    Stops (spaced entries ++ closing :: r) := by
  cases entries with
  | nil => exact ⟨closing, r, rfl, .inr rfl⟩
  | cons p entries => exact ⟨space, _, rfl, .inl rfl⟩

/-- The name of the first entry. -/
theorem spaced_head {n w r : Bytes} {entries : List (Bytes × Bytes)} (hn : Unreserved n)
    (hentries : ∀ p ∈ entries, Unreserved p.1)
    (h : space :: (n ++ colon :: w) = spaced entries ++ closing :: r) :
    ∃ p ∈ entries, p.1 = n := by
  cases entries with
  | nil => exact absurd (List.cons.inj h).1 (by decide)
  | cons p entries =>
    refine ⟨p, List.mem_cons_self, ?_⟩
    rw [spaced, List.flatMap_cons, List.append_assoc, List.cons_append, List.append_assoc,
      List.cons_append] at h
    have hcolon : ∀ {u : Bytes}, Unreserved u → colon ∉ u := fun hu hmem => (hu colon hmem).2.1 rfl
    exact (JoinedPairs.cut_inj (hcolon (hentries p List.mem_cons_self)) (hcolon hn)
      (List.cons.inj h).2.symm).1

/-! ## Sorted entries -/

theorem sortEntries_perm {α : Type} (entries : List (Bytes × α)) :
    (sortEntries entries).Perm entries :=
  List.perm_insertionSort _ entries

theorem pairwise_insertionSort_name {β : Type} (name : β → Bytes) (l : List β) :
    (l.insertionSort fun b c => name b ≤ name c).Pairwise fun b c => name b ≤ name c := by
  have htotal : Std.Total fun b c : β => name b ≤ name c := ⟨fun b c => List.le_total _ _⟩
  have htrans : IsTrans β fun b c : β => name b ≤ name c := ⟨fun b c d => List.le_trans⟩
  exact List.pairwise_insertionSort _ l

/-- What comes of the elements of a list, in the order of their names. -/
theorem sortEntries_filterMap {α β : Type} {name : β → Bytes} {entry : β → Option (Bytes × α)}
    {l : List β} (hentry : ∀ b p, entry b = some p → p.1 = name b) (hl : (l.map name).Nodup) :
    sortEntries (l.filterMap entry) =
      (l.insertionSort fun b c => name b ≤ name c).filterMap entry := by
  have hsort := List.perm_insertionSort (fun b c => name b ≤ name c) l
  have hperm := (sortEntries_perm (l.filterMap entry)).trans (hsort.filterMap entry).symm
  refine hperm.eq_of_pairwise ?_
    (pairwise_insertionSort_name Prod.fst _) ?_
  · intro p q hp hq hpq hqp
    obtain ⟨b, hb, hbp⟩ := List.mem_filterMap.mp ((sortEntries_perm _).subset hp)
    obtain ⟨c, hc, hcq⟩ := List.mem_filterMap.mp hq
    have hname : name b = name c := by
      rw [← hentry b p hbp, ← hentry c q hcq]
      exact List.le_antisymm hpq hqp
    obtain rfl := List.inj_on_of_nodup_map hl hb (hsort.subset hc) hname
    exact Option.some.inj (hbp.symm.trans hcq)
  · rw [List.pairwise_filterMap]
    refine (pairwise_insertionSort_name name l).imp fun {b c} hbc p hp q hq => ?_
    rw [hentry b p hp, hentry c q hq]
    exact hbc

theorem mapText_eq {entries : List (Bytes × Bytes)} (h : entries ≠ []) :
    ∃ x, entriesKey entries = asciiBytes "map[" ++ (x ++ [closing]) ∧
      space :: x = spaced (sortEntries entries) := by
  have hsort : sortEntries entries ≠ [] := by
    intro hnil
    exact h (List.Perm.nil_eq (hnil ▸ sortEntries_perm entries)).symm
  refine ⟨_, ?_, join_spaced hsort⟩
  rw [entriesKey, if_pos (List.length_pos_iff.mpr h), mapText, List.append_assoc]
  rfl

theorem entriesKey_eq_nil {entries : List (Bytes × Bytes)} :
    entriesKey entries = [] ↔ entries = [] := by
  constructor
  · intro hkey
    by_contra h
    obtain ⟨x, hx, -⟩ := mapText_eq h
    rw [hx] at hkey
    simp at hkey
  · rintro rfl
    rfl

/-- Two keys at the beginning of equal texts. -/
theorem entriesKey_append_eq {entries entries' : List (Bytes × Bytes)} {r s : Bytes}
    (h : entries ≠ []) (h' : entries' ≠ [])
    (hkey : entriesKey entries ++ r = entriesKey entries' ++ s) :
    spaced (sortEntries entries) ++ closing :: r =
      spaced (sortEntries entries') ++ closing :: s := by
  obtain ⟨x, hx, hspaced⟩ := mapText_eq h
  obtain ⟨x', hx', hspaced'⟩ := mapText_eq h'
  rw [hx, hx', List.append_assoc, List.append_assoc] at hkey
  rw [← hspaced, ← hspaced']
  simpa using hkey

/-! ## Levels -/

/-- A text that closes what it opens, with fewer than `k` levels open. -/
structure Level (k : ℕ) (w : Bytes) : Prop where
  pos : 0 < k
  net_eq : BracketWords.net opening closing w = 0
  below : Below opening closing k w

theorem Unreserved.level {k : ℕ} {w : Bytes} (hw : Unreserved w) (hk : 0 < k) : Level k w :=
  ⟨hk, BracketWords.net_plain hw.plain, BracketWords.below_plain hw.plain (by exact_mod_cast hk)⟩

theorem Level.append {k : ℕ} {u w : Bytes} (hu : Level k u) (hw : Level k w) :
    Level k (u ++ w) where
  pos := hu.pos
  net_eq := by rw [BracketWords.net_append, hu.net_eq, hw.net_eq, add_zero]
  below := by
    rw [BracketWords.below_append, hu.net_eq, sub_zero]
    exact ⟨hu.below, hw.below⟩

theorem level_spaced {k : ℕ} {entries : List (Bytes × Bytes)} (hk : 0 < k)
    (h : ∀ p ∈ entries, Unreserved p.1 ∧ Level k p.2) : Level k (spaced entries) := by
  have hsign : ∀ b : UInt8, b ≠ opening → b ≠ closing → Level k [b] := by
    intro b ho hc
    have hb : BracketWords.Plain opening closing [b] := by simp [BracketWords.Plain, ho, hc]
    exact ⟨hk, BracketWords.net_plain hb, BracketWords.below_plain hb (by exact_mod_cast hk)⟩
  induction entries with
  | nil => exact ⟨hk, rfl, trivial⟩
  | cons p entries ih =>
    obtain ⟨⟨hname, htext⟩, hrest⟩ := List.forall_mem_cons.mp h
    have hpiece : Level k (space :: (p.1 ++ colon :: p.2)) :=
      (hsign space (by decide) (by decide)).append
        ((hname.level hk).append ((hsign colon (by decide) (by decide)).append htext))
    exact hpiece.append (ih hrest)

/-- A map opens one level more than its entries. -/
theorem level_entriesKey {k : ℕ} {entries : List (Bytes × Bytes)} (hk : 0 < k)
    (hne : entries ≠ []) (h : ∀ p ∈ entries, Unreserved p.1 ∧ Level k p.2) :
    Level (k + 1) (entriesKey entries) := by
  obtain ⟨x, hx, hspaced⟩ := mapText_eq hne
  have hlevel := level_spaced hk fun p hp => h p ((sortEntries_perm entries).subset hp)
  rw [← hspaced] at hlevel
  have hspace : BracketWords.weight opening closing space = 0 := by decide
  have hclosing : BracketWords.weight opening closing closing = -1 := by decide
  have hmap : Below opening closing (k + 1 : ℤ) (asciiBytes "map[") ∧
      BracketWords.net opening closing (asciiBytes "map[") = 1 := by
    have hbytes : asciiBytes "map[" = [109, 97, 112, opening] := by decide
    have hm : BracketWords.weight opening closing 109 = 0 := by decide
    have ha : BracketWords.weight opening closing 97 = 0 := by decide
    have hp : BracketWords.weight opening closing 112 = 0 := by decide
    have ho : BracketWords.weight opening closing opening = 1 := by decide
    rw [hbytes]
    simp only [Below, BracketWords.net_cons, BracketWords.net_nil, hm, ha, hp, ho]
    refine ⟨⟨?_, ?_, ?_, ?_, trivial⟩, ?_⟩ <;> omega
  have hnet : BracketWords.net opening closing x = 0 := by
    have hnet := hlevel.net_eq
    rwa [BracketWords.net_cons, hspace, zero_add] at hnet
  have hbelow : Below opening closing k x := by
    have hbelow := hlevel.below.2
    rwa [hspace, sub_zero] at hbelow
  rw [hx]
  refine ⟨Nat.succ_pos k, ?_, ?_⟩
  · rw [BracketWords.net_append, BracketWords.net_append, hmap.2, hnet, BracketWords.net_cons,
      hclosing, BracketWords.net_nil]
    rfl
  · push_cast
    rw [BracketWords.below_append, BracketWords.below_append, hmap.2, hnet, add_sub_cancel_right,
      sub_zero]
    refine ⟨hmap.1, hbelow, ?_, trivial⟩
    rw [hclosing]
    omega

/-! ## Fields of numbers -/

section Levels

variable {texts : ValueTexts}

theorem Reflected.level_conditionText {x : Reflected} {d : FieldDecl} {k : ℕ} {t : Bytes}
    (hinner : ∀ inner k, x = .struct inner → d.Searched →
      (∀ leaf ∈ inner.leaves, leaf.2 = .number ∧ leaf.1.length ≤ k) →
      inner.searlizeConditionBean texts ≠ [] →
      0 < k ∧ Level (k + 1) (inner.searlizeConditionBean texts))
    (hleaves : ∀ leaf ∈ x.leaves d, leaf.2 = .number ∧ leaf.1.length < k)
    (ht : x.conditionText texts d = some t) : Level k t := by
  cases x with
  | scalar v =>
    rw [conditionText] at ht
    split_ifs at ht with hset
    obtain ⟨kind, hkind⟩ := Option.isSome_iff_exists.mp hset.1
    obtain ⟨hnumber, hk⟩ := hleaves ([], kind) (by simp [leaves, hkind])
    obtain rfl : kind = .number := hnumber
    exact Option.some.inj ht ▸ (Value.text_unreserved texts hkind).level hk
  | struct inner =>
    rw [conditionText] at ht
    split_ifs at ht with hset
    rw [leaves, if_pos hset.1] at hleaves
    have hle : ∀ leaf ∈ inner.leaves, leaf.2 = .number ∧ leaf.1.length ≤ k - 1 :=
      fun leaf hleaf => ⟨(hleaves leaf hleaf).1, Nat.le_sub_one_of_lt (hleaves leaf hleaf).2⟩
    obtain ⟨hk, hlevel⟩ := hinner inner (k - 1) rfl hset.1 hle hset.2
    rw [Nat.sub_add_cancel (by omega)] at hlevel
    exact Option.some.inj ht ▸ hlevel
  | pointer isNil inner => simp [conditionText] at ht

namespace Fields

theorem mem_leaves_row {l : List (FieldDecl × Reflected)} {p : FieldDecl × Reflected} (hp : p ∈ l)
    {leaf : List Bytes × LeafKind} (hleaf : leaf ∈ p.2.leaves p.1) :
    (p.1.name :: leaf.1, leaf.2) ∈ (row l).leaves := by
  rw [leaves_row]
  exact List.mem_flatMap.mpr ⟨p, hp, List.mem_map_of_mem hleaf⟩

theorem declared_inner {l : List (FieldDecl × Reflected)} (h : (row l).Declared) {d : FieldDecl}
    {inner : Fields} (hmem : (d, .struct inner) ∈ l) (hd : d.Searched) : inner.Declared :=
  (((declared_row.mp h).2 _ hmem).2 hd).2

/-- Where all leaves are numbers, no more levels are open than the deepest of them is deep. -/
theorem level_searlizeConditionBean {fields : Fields} (hwell : fields.Declared) {k : ℕ}
    (hleaves : ∀ leaf ∈ fields.leaves, leaf.2 = .number ∧ leaf.1.length ≤ k)
    (hkey : fields.searlizeConditionBean texts ≠ []) :
    0 < k ∧ Level (k + 1) (fields.searlizeConditionBean texts) := by
  induction fields using levelInduction generalizing k with
  | level l ih =>
    have hentries : ∀ p ∈ (row l).conditionEntries texts, Unreserved p.1 ∧ Level k p.2 := by
      intro p hp
      rw [conditionEntries_row texts hwell] at hp
      obtain ⟨⟨d, x⟩, hx, hp⟩ := List.mem_filterMap.mp hp
      obtain ⟨t, ht, rfl⟩ := Option.map_eq_some_iff.mp hp
      refine ⟨((declared_row.mp hwell).2 _ hx).1, x.level_conditionText ?_ ?_ ht⟩
      · rintro inner k rfl hd hle hne
        exact ih d inner hx (declared_inner hwell hx hd) hle hne
      · intro leaf hleaf
        obtain ⟨hnumber, hlen⟩ := hleaves _ (mem_leaves_row hx hleaf)
        exact ⟨hnumber, hlen⟩
    have hne : (row l).conditionEntries texts ≠ [] := fun hnil => hkey (entriesKey_eq_nil.mpr hnil)
    obtain ⟨p, hp⟩ := List.exists_mem_of_ne_nil _ hne
    have hk := (hentries p hp).2.pos
    exact ⟨hk, level_entriesKey hk hne hentries⟩

end Fields

end Levels

/-! ## Endings -/

/-- What can follow in two texts after a string under `k` open levels. -/
structure Endings (k : ℕ) (r s : Bytes) : Prop where
  left : Below opening closing k r
  right : Below opening closing k s
  net_eq : BracketWords.net opening closing r = BracketWords.net opening closing s

theorem below_ending {k : ℕ} {entries : List (Bytes × Bytes)} {r : Bytes}
    (h : ∀ p ∈ entries, Unreserved p.1 ∧ Level k p.2) (hr : Below opening closing (k + 1 : ℕ) r) :
    BracketWords.net opening closing (spaced entries ++ closing :: r) =
      BracketWords.net opening closing r - 1 ∧
    Below opening closing k (spaced entries ++ closing :: r) := by
  have hspaced : BracketWords.net opening closing (spaced entries) = 0 ∧
      Below opening closing k (spaced entries) := by
    rcases entries with _ | ⟨p, entries⟩
    · exact ⟨rfl, trivial⟩
    · have hlevel := level_spaced (h p List.mem_cons_self).2.pos h
      exact ⟨hlevel.net_eq, hlevel.below⟩
  have hclosing : BracketWords.weight opening closing closing = -1 := by decide
  rw [BracketWords.net_append, BracketWords.below_append, hspaced.1, BracketWords.net_cons,
    hclosing]
  refine ⟨by omega, hspaced.2, ?_⟩
  rw [Below, hclosing, sub_zero, sub_neg_eq_add]
  exact ⟨by omega, by exact_mod_cast hr⟩

/-- Numbers may follow on the levels that stay open. -/
theorem Endings.close {k : ℕ} {r s : Bytes} (h : Endings (k + 1) r s)
    {entries entries' : List (Bytes × Bytes)} (he : ∀ p ∈ entries, Unreserved p.1 ∧ Level k p.2)
    (he' : ∀ p ∈ entries', Unreserved p.1 ∧ Level k p.2) :
    Endings k (spaced entries ++ closing :: r) (spaced entries' ++ closing :: s) := by
  obtain ⟨hnet, hbelow⟩ := below_ending he h.left
  obtain ⟨hnet', hbelow'⟩ := below_ending he' h.right
  exact ⟨hbelow, hbelow', by rw [hnet, hnet', h.net_eq]⟩

/-! ## Rows of field pairs -/

namespace FieldPair

variable (texts : ValueTexts) (p : FieldPair)

/-- What one of the two adds to its map. -/
def entry (side : FieldPair → Reflected) (p : FieldPair) : Option (Bytes × Bytes) :=
  ((side p).conditionText texts p.decl).map fun t => (p.decl.name, t)

/-- The conditions of both structs in this field. -/
def Same : Prop := p.left.condition p.decl = p.right.condition p.decl

/-- What the texts of both fields tell, whatever may follow them. -/
structure Reads : Prop where
  absent : p.left.conditionText texts p.decl = none → p.right.conditionText texts p.decl = none →
    p.Same
  read : ∀ t u r s, p.left.conditionText texts p.decl = some t →
    p.right.conditionText texts p.decl = some u → Stops r → Stops s →
    (∀ leaf ∈ p.left.leaves p.decl, leaf.2 = .string → Endings leaf.1.length r s) →
    t ++ r = u ++ s → p.Same ∧ r = s

/-- Both texts stay below a level. -/
def Flat (k : ℕ) : Prop := ∀ t, p.left.conditionText texts p.decl = some t ∨
  p.right.conditionText texts p.decl = some t → Level k t

variable {texts}

theorem mem_left {p : FieldPair} {z : List FieldPair} (hp : p ∈ z) :
    (p.decl, p.left) ∈ z.map fun p => (p.decl, p.left) :=
  List.mem_map_of_mem hp

theorem mem_right {p : FieldPair} {z : List FieldPair} (hp : p ∈ z) :
    (p.decl, p.right) ∈ z.map fun p => (p.decl, p.right) :=
  List.mem_map_of_mem hp

theorem of_mem_entries {side : FieldPair → Reflected} {z : List FieldPair} {e : Bytes × Bytes}
    (he : e ∈ z.filterMap (entry texts side)) : ∃ p ∈ z, e.1 = p.decl.name ∧
      (side p).conditionText texts p.decl = some e.2 := by
  obtain ⟨p, hp, hpe⟩ := List.mem_filterMap.mp he
  obtain ⟨t, ht, rfl⟩ := Option.map_eq_some_iff.mp hpe
  exact ⟨p, hp, rfl, ht⟩

/-- Neither text begins with a field that the other does not have. -/
theorem spaced_ne {n w r : Bytes} {entries : List (Bytes × Bytes)} (hn : Unreserved n)
    (h : ∀ e ∈ entries, Unreserved e.1 ∧ e.1 ≠ n) :
    space :: (n ++ colon :: w) ≠ spaced entries ++ closing :: r := by
  intro heq
  obtain ⟨e, he, hname⟩ := spaced_head hn (fun e he => (h e he).1) heq
  exact (h e he).2 hname

theorem spaced_entries_cons (side : FieldPair → Reflected) (p : FieldPair) (z : List FieldPair)
    (w : Bytes) : spaced ((p :: z).filterMap (entry texts side)) ++ w =
      match (side p).conditionText texts p.decl with
      | none => spaced (z.filterMap (entry texts side)) ++ w
      | some t => space :: (p.decl.name ++ colon ::
          (t ++ (spaced (z.filterMap (entry texts side)) ++ w))) := by
  rw [List.filterMap_cons, entry]
  cases (side p).conditionText texts p.decl with
  | none => rfl
  | some t => simp [spaced]

variable (texts) in
/-- Rows that are read field by field: a string is followed by texts that stay below its level
only. -/
structure Readable (z : List FieldPair) : Prop where
  names : z.Pairwise fun p q => p.decl.name ≠ q.decl.name
  named : ∀ p ∈ z, Unreserved p.decl.name
  reads : ∀ p ∈ z, p.Reads texts
  flat : z.Pairwise fun p q => ∀ leaf ∈ p.left.leaves p.decl, leaf.2 = .string →
    q.Flat texts leaf.1.length

namespace Readable

variable {p : FieldPair} {z : List FieldPair} {r s : Bytes}

theorem tail (h : Readable texts (p :: z)) : Readable texts z where
  names := h.names.tail
  named q hq := h.named q (List.mem_cons_of_mem p hq)
  reads q hq := h.reads q (List.mem_cons_of_mem p hq)
  flat := h.flat.tail

theorem other_names (h : Readable texts (p :: z)) (side : FieldPair → Reflected) :
    ∀ e ∈ z.filterMap (entry texts side), Unreserved e.1 ∧ e.1 ≠ p.decl.name := by
  intro e he
  obtain ⟨q, hq, heq, -⟩ := of_mem_entries he
  rw [heq]
  exact ⟨h.tail.named q hq, (List.rel_of_pairwise_cons h.names hq).symm⟩

/-- What follows the texts of a field. -/
theorem endings (h : Readable texts (p :: z)) {leaf : List Bytes × LeafKind}
    (hleaf : leaf ∈ p.left.leaves p.decl) (hstring : leaf.2 = .string)
    (hends : Endings (leaf.1.length + 1) r s) : Endings leaf.1.length
      (spaced (z.filterMap (entry texts left)) ++ closing :: r)
      (spaced (z.filterMap (entry texts right)) ++ closing :: s) := by
  refine hends.close (fun e he => ⟨(h.other_names left e he).1, ?_⟩)
    fun e he => ⟨(h.other_names right e he).1, ?_⟩
  · obtain ⟨q, hq, -, ht⟩ := of_mem_entries he
    exact List.rel_of_pairwise_cons h.flat hq leaf hleaf hstring e.2 (.inl ht)
  · obtain ⟨q, hq, -, ht⟩ := of_mem_entries he
    exact List.rel_of_pairwise_cons h.flat hq leaf hleaf hstring e.2 (.inr ht)

/-- The first field is read, and the texts of the others are left. -/
theorem read_head (hz : Readable texts (p :: z))
    (hends : ∀ leaf ∈ p.left.leaves p.decl, leaf.2 = .string → Endings (leaf.1.length + 1) r s)
    (h : spaced ((p :: z).filterMap (entry texts left)) ++ closing :: r =
      spaced ((p :: z).filterMap (entry texts right)) ++ closing :: s) :
    p.Same ∧ spaced (z.filterMap (entry texts left)) ++ closing :: r =
      spaced (z.filterMap (entry texts right)) ++ closing :: s := by
  have hname := hz.named p List.mem_cons_self
  have hread := hz.reads p List.mem_cons_self
  rw [spaced_entries_cons, spaced_entries_cons] at h
  cases ht : p.left.conditionText texts p.decl with
  | none =>
    cases hu : p.right.conditionText texts p.decl with
    | none =>
      rw [ht, hu] at h
      exact ⟨hread.absent ht hu, h⟩
    | some u =>
      rw [ht, hu] at h
      exact absurd h.symm (spaced_ne hname (hz.other_names left))
  | some t =>
    cases hu : p.right.conditionText texts p.decl with
    | none =>
      rw [ht, hu] at h
      exact absurd h (spaced_ne hname (hz.other_names right))
    | some u =>
      rw [ht, hu] at h
      have htexts := (List.cons.inj (List.append_cancel_left (List.cons.inj h).2)).2
      exact hread.read t u _ _ ht hu (spaced_stops _ r) (spaced_stops _ s)
        (fun leaf hleaf hstring => hz.endings hleaf hstring (hends leaf hleaf hstring)) htexts

/-- And so all fields are read. -/
theorem read (hz : Readable texts z)
    (hends : ∀ p ∈ z, ∀ leaf ∈ p.left.leaves p.decl, leaf.2 = .string →
      Endings (leaf.1.length + 1) r s)
    (h : spaced (z.filterMap (entry texts left)) ++ closing :: r =
      spaced (z.filterMap (entry texts right)) ++ closing :: s) :
    (∀ p ∈ z, p.Same) ∧ r = s := by
  induction z with
  | nil => exact ⟨by simp, (List.cons.inj h).2⟩
  | cons p z ih =>
    obtain ⟨hend, hends⟩ := List.forall_mem_cons.mp hends
    obtain ⟨hsame, hnext⟩ := hz.read_head hend h
    obtain ⟨hall, hrs⟩ := ih hz.tail hends hnext
    exact ⟨List.forall_mem_cons.mpr ⟨hsame, hall⟩, hrs⟩

end Readable

end FieldPair

/-! ## Structs of one type -/

namespace Fields

/-- No condition is a truth value, which never counts as set. After a string, in the order of
names, there are only numbers, and these less deep than the string. -/
def Separable (fields : Fields) : Prop :=
  (∀ leaf ∈ fields.leaves, leaf.2 ≠ .bool) ∧
    ∀ p ∈ fields.leaves, ∀ q ∈ fields.leaves, p.2 = .string → p.1 < q.1 →
      q.2 = .number ∧ q.1.length < p.1.length

end Fields

section Reading

variable {texts : ValueTexts}

/-- A field without text is zero. -/
theorem Reflected.condition_of_text_none {x : Reflected} {d : FieldDecl} (hwell : x.Declared d)
    (hbool : ∀ leaf ∈ x.leaves d, leaf.2 ≠ .bool)
    (hinner : ∀ inner, x = .struct inner → d.Searched → inner.searlizeConditionBean texts = [] →
      inner.conditions = inner.zero.conditions)
    (htext : x.conditionText texts d = none) : x.condition d = x.zero.condition d := by
  cases x with
  | scalar v =>
    rcases hwell with ⟨hkind, -⟩ | ⟨t, rfl⟩
    · have hnot : v.leafKind ≠ some .bool := by
        intro hv
        exact hbool ([], .bool) (by simp [leaves, hv]) rfl
      have hset : validateRequired (.scalar v) = false := by
        simpa [conditionText, hkind] using htext
      rw [zero, condition, condition, Value.condition_of_not_set hkind hnot hset]
    · rfl
  | struct inner =>
    rw [zero, condition, condition]
    split_ifs with hd
    · have hkey : inner.searlizeConditionBean texts = [] := by
        simpa [conditionText, hd] using htext
      rw [hinner inner rfl hd hkey]
    · rfl
  | pointer isNil inner => rfl

namespace Fields

theorem entries_eq_nil {l : List (FieldDecl × Reflected)} (hwell : (row l).Declared)
    (hkey : (row l).searlizeConditionBean texts = []) {p : FieldDecl × Reflected} (hp : p ∈ l) :
    p.2.conditionText texts p.1 = none := by
  have hnil := entriesKey_eq_nil.mp hkey
  rw [conditionEntries_row texts hwell, List.filterMap_eq_nil_iff] at hnil
  exact Option.map_eq_none_iff.mp (hnil p hp)

/-- A struct without key has no condition that is set. -/
theorem conditions_of_key_nil {fields : Fields} (hwell : fields.Declared)
    (hbool : ∀ leaf ∈ fields.leaves, leaf.2 ≠ .bool)
    (hkey : fields.searlizeConditionBean texts = []) : fields.conditions = fields.zero.conditions := by
  induction fields using levelInduction with
  | level l ih =>
    rw [zero_row, conditions_row, conditions_row, List.filterMap_map]
    refine congrArg row (List.filterMap_congr fun p hp => ?_)
    have hzero : p.2.condition p.1 = p.2.zero.condition p.1 := by
      refine Reflected.condition_of_text_none ((declared_row.mp hwell).2 p hp).2 ?_ ?_
        (entries_eq_nil hwell hkey hp)
      · exact fun leaf hleaf => hbool (p.1.name :: leaf.1, leaf.2) (mem_leaves_row hp hleaf)
      · intro inner hinner hd hnil
        have hmem : (p.1, .struct inner) ∈ l := hinner ▸ hp
        refine ih p.1 inner hmem (declared_inner hwell hmem hd) (fun leaf hleaf => ?_) hnil
        exact hbool (p.1.name :: leaf.1, leaf.2) (mem_leaves_row hmem (by rwa [Reflected.leaves, if_pos hd]))
    rw [Function.comp_apply, hzero]

variable (texts) in
/-- The keys of two structs of one type tell their conditions, whatever may follow. -/
def Reads (f g : Fields) : Prop := ∀ r s,
  (∀ leaf ∈ f.leaves, leaf.2 = .string → Endings leaf.1.length r s) →
  f.searlizeConditionBean texts ≠ [] → g.searlizeConditionBean texts ≠ [] →
  f.searlizeConditionBean texts ++ r = g.searlizeConditionBean texts ++ s →
  f.conditions = g.conditions ∧ r = s

end Fields

namespace Reflected

theorem condition_of_absent {x : Reflected} {d : FieldDecl} (hwell : x.Declared d)
    (hbool : ∀ leaf ∈ x.leaves d, leaf.2 ≠ .bool) (htext : x.conditionText texts d = none) :
    x.condition d = x.zero.condition d := by
  refine condition_of_text_none hwell hbool ?_ htext
  rintro inner rfl hd hkey
  refine Fields.conditions_of_key_nil (hwell hd).2 (fun leaf hleaf => ?_) hkey
  exact hbool leaf (by rwa [leaves, if_pos hd])

/-- Two scalars of one type: a number ends where the map goes on, a string where it can. -/
theorem scalar_read {v w : Value} {d : FieldDecl} {t u r s : Bytes} (hzero : v.zero = w.zero)
    (hbool : v.leafKind ≠ some .bool) (ht : (scalar v).conditionText texts d = some t)
    (hu : (scalar w).conditionText texts d = some u) (hr : Stops r) (hs : Stops s)
    (hends : v.leafKind = some .string → Endings 0 r s) (h : t ++ r = u ++ s) :
    v.condition = w.condition ∧ r = s := by
  have hkind : v.leafKind = w.leafKind := by
    rw [← Fields.leafKind_zero v, hzero, Fields.leafKind_zero]
  rw [conditionText] at ht hu
  split_ifs at ht with hv
  split_ifs at hu with hw
  obtain rfl := Option.some.inj ht
  obtain rfl := Option.some.inj hu
  obtain ⟨kind, hleaf⟩ := Option.isSome_iff_exists.mp hv.1
  cases kind with
  | number =>
    obtain ⟨htext, hrs⟩ := (Value.text_unreserved texts hleaf).cut
      (Value.text_unreserved texts (hkind ▸ hleaf)) hr hs h
    exact ⟨Value.number_injective hleaf hzero hv.2 hw.2 htext, hrs⟩
  | bool => exact absurd hleaf hbool
  | string =>
    obtain ⟨hleft, hright, hnet⟩ := hends hleaf
    obtain ⟨htext, hrs⟩ := BracketWords.ending_unique hleft hright hnet h
    cases v with
    | string a =>
      cases w with
      | string b => exact ⟨congrArg (fun a => some (Value.string a)) htext, hrs⟩
      | _ => simp [Value.zero] at hzero
    | _ => simp [Value.leafKind] at hleaf

end Reflected

namespace FieldPair

theorem reads {p : FieldPair} (hzero : p.left.zero = p.right.zero)
    (hwell : p.left.Declared p.decl) (hwell' : p.right.Declared p.decl)
    (hbool : ∀ leaf ∈ p.left.leaves p.decl, leaf.2 ≠ .bool)
    (hbool' : ∀ leaf ∈ p.right.leaves p.decl, leaf.2 ≠ .bool)
    (hinner : ∀ f g, p.left = .struct f → p.right = .struct g → p.decl.Searched →
      Fields.Reads texts f g) : p.Reads texts where
  absent ht hu := by
    rw [Same, Reflected.condition_of_absent hwell hbool ht, hzero,
      ← Reflected.condition_of_absent hwell' hbool' hu]
  read t u r s ht hu hr hs hends h := by
    obtain ⟨d, x, y⟩ := p
    cases x with
    | scalar v =>
      cases y with
      | scalar w =>
        have hnot : v.leafKind ≠ some .bool := fun hv =>
          hbool ([], .bool) (by simp [Reflected.leaves, hv]) rfl
        obtain ⟨hsame, hrs⟩ := Reflected.scalar_read (Reflected.scalar.inj hzero) hnot ht hu hr hs
          (fun hv => hends ([], .string) (by simp [Reflected.leaves, hv]) rfl) h
        exact ⟨congrArg (Option.map Reflected.scalar) hsame, hrs⟩
      | _ => simp [Reflected.zero] at hzero
    | struct f =>
      cases y with
      | struct g =>
        simp only [Reflected.conditionText] at ht hu
        split_ifs at ht with hf
        split_ifs at hu with hg
        obtain rfl := Option.some.inj ht
        obtain rfl := Option.some.inj hu
        have hends' : ∀ leaf ∈ f.leaves, leaf.2 = .string → Endings leaf.1.length r s :=
          fun leaf hleaf => hends leaf (by rwa [Reflected.leaves, if_pos hf.1])
        obtain ⟨hsame, hrs⟩ := hinner f g rfl rfl hf.1 r s hends' hf.2 hg.2 h
        refine ⟨?_, hrs⟩
        simp only [Same, Reflected.condition, hsame]
      | _ => simp [Reflected.zero] at hzero
    | pointer isNil inner => exact hwell.elim

end FieldPair

namespace Fields

theorem Separable.inner {l : List (FieldDecl × Reflected)} (h : (row l).Separable) {d : FieldDecl}
    {inner : Fields} (hmem : (d, .struct inner) ∈ l) (hd : d.Searched) : inner.Separable := by
  have hleaf : ∀ leaf ∈ inner.leaves, (d.name :: leaf.1, leaf.2) ∈ (row l).leaves :=
    fun leaf hleaf => mem_leaves_row hmem (by rwa [Reflected.leaves, if_pos hd])
  refine ⟨fun leaf hin => h.1 (d.name :: leaf.1, leaf.2) (hleaf leaf hin), fun p hp q hq hstring hlt => ?_⟩
  obtain ⟨hnumber, hlen⟩ := h.2 _ (hleaf p hp) _ (hleaf q hq) hstring
    (List.cons_lt_cons_iff.mpr (.inr ⟨rfl, hlt⟩))
  exact ⟨hnumber, Nat.lt_of_succ_lt_succ hlen⟩

/-- What stands behind a string is flat. -/
theorem Separable.later {l : List (FieldDecl × Reflected)} (h : (row l).Separable)
    {p : FieldDecl × Reflected} (hp : p ∈ l) {leaf : List Bytes × LeafKind}
    (hleaf : leaf ∈ p.2.leaves p.1) (hstring : leaf.2 = .string) {n : Bytes}
    (hlt : p.1.name < n) {m : List Bytes × LeafKind} (hm : (n :: m.1, m.2) ∈ (row l).leaves) :
    m.2 = .number ∧ m.1.length < leaf.1.length := by
  obtain ⟨hnumber, hlen⟩ := h.2 _ (mem_leaves_row hp hleaf) _ hm hstring
    (List.cons_lt_cons_iff.mpr (.inl hlt))
  exact ⟨hnumber, Nat.lt_of_succ_lt_succ hlen⟩

theorem level_text {l : List (FieldDecl × Reflected)} (hwell : (row l).Declared)
    {p : FieldDecl × Reflected} (hp : p ∈ l) {k : ℕ} {t : Bytes}
    (hleaves : ∀ leaf ∈ p.2.leaves p.1, leaf.2 = .number ∧ leaf.1.length < k)
    (ht : p.2.conditionText texts p.1 = some t) : Level k t := by
  refine p.2.level_conditionText ?_ hleaves ht
  intro inner k hinner hd hle hne
  exact level_searlizeConditionBean (declared_inner hwell (hinner ▸ hp) hd) hle hne

/-- Two structs of one type, by the pairs of their fields. -/
structure OneType (z : List FieldPair) : Prop where
  left : (row (z.map fun p => (p.decl, p.left))).Declared
  zero_eq : ∀ p ∈ z, p.left.zero = p.right.zero

namespace OneType

variable {z : List FieldPair}

theorem row_zero_eq (hz : OneType z) : (row (z.map fun p => (p.decl, p.left))).zero =
    (row (z.map fun p => (p.decl, p.right))).zero := by
  rw [zero_row, zero_row, List.map_map, List.map_map]
  refine congrArg row (List.map_congr_left fun p hp => ?_)
  simp only [Function.comp_apply, hz.zero_eq p hp]

theorem right (hz : OneType z) : (row (z.map fun p => (p.decl, p.right))).Declared := by
  rw [← declared_zero, ← hz.row_zero_eq, declared_zero]
  exact hz.left

theorem leaves_eq (hz : OneType z) : (row (z.map fun p => (p.decl, p.right))).leaves =
    (row (z.map fun p => (p.decl, p.left))).leaves := by
  rw [← leaves_zero, ← hz.row_zero_eq, leaves_zero]

theorem names_nodup (hz : OneType z) : (z.map fun p => p.decl.name).Nodup := by
  have hnodup := (declared_row.mp hz.left).1
  rwa [List.map_map] at hnodup

/-- The names of a map stand in their order. -/
theorem sorted (hz : OneType z) :
    (z.insertionSort fun p q => p.decl.name ≤ q.decl.name).Pairwise fun p q => p.decl.name < q.decl.name := by
  have hperm := (List.perm_insertionSort (fun p q => p.decl.name ≤ q.decl.name) z).map
    fun p => p.decl.name
  have hne := List.pairwise_map.mp (hperm.nodup_iff.mpr hz.names_nodup)
  have hle := pairwise_insertionSort_name (fun p : FieldPair => p.decl.name) z
  exact (hle.and hne).imp fun hpq => (List.le_iff_lt_or_eq.mp hpq.1).resolve_right hpq.2

/-- The texts of both structs in the order of the names. -/
theorem append_eq {r s : Bytes} (hz : OneType z)
    (hkey : (row (z.map fun p => (p.decl, p.left))).searlizeConditionBean texts ≠ [])
    (hkey' : (row (z.map fun p => (p.decl, p.right))).searlizeConditionBean texts ≠ [])
    (h : (row (z.map fun p => (p.decl, p.left))).searlizeConditionBean texts ++ r =
      (row (z.map fun p => (p.decl, p.right))).searlizeConditionBean texts ++ s) :
    spaced ((z.insertionSort fun p q => p.decl.name ≤ q.decl.name).filterMap
        (FieldPair.entry texts FieldPair.left)) ++ closing :: r =
      spaced ((z.insertionSort fun p q => p.decl.name ≤ q.decl.name).filterMap
        (FieldPair.entry texts FieldPair.right)) ++ closing :: s := by
  have hentry : ∀ side, ∀ p e, FieldPair.entry texts side p = some e → e.1 = p.decl.name := by
    intro side p e he
    obtain ⟨t, -, rfl⟩ := Option.map_eq_some_iff.mp he
    rfl
  have hleft := conditionEntries_row texts hz.left
  have hright := conditionEntries_row texts hz.right
  rw [List.filterMap_map] at hleft hright
  have hspaced := entriesKey_append_eq (fun hnil => hkey (entriesKey_eq_nil.mpr hnil))
    (fun hnil => hkey' (entriesKey_eq_nil.mpr hnil)) h
  rw [hleft, hright] at hspaced
  rw [← sortEntries_filterMap (hentry FieldPair.left) hz.names_nodup,
    ← sortEntries_filterMap (hentry FieldPair.right) hz.names_nodup]
  exact hspaced

end OneType

theorem exists_oneType {l : List (FieldDecl × Reflected)} {g : Fields} (hwell : (row l).Declared)
    (hzero : (row l).zero = g.zero) : ∃ z : List FieldPair, l = z.map (fun p => (p.decl, p.left)) ∧
      g = row (z.map fun p => (p.decl, p.right)) ∧ OneType z := by
  obtain ⟨z, hl, rfl, hz⟩ := exists_pairs hzero
  obtain rfl := row_injective hl
  exact ⟨z, rfl, rfl, hwell, hz⟩

theorem Separable.pair_reads {z : List FieldPair}
    (hsep : (row (z.map fun p => (p.decl, p.left))).Separable) (hz : OneType z) {p : FieldPair}
    (hp : p ∈ z) (hinner : ∀ f g, (p.decl, .struct f) ∈ z.map (fun p => (p.decl, p.left)) →
      p.decl.Searched → f.zero = g.zero → Reads texts f g) : p.Reads texts := by
  have hbool : ∀ leaf ∈ (row (z.map fun p => (p.decl, p.right))).leaves, leaf.2 ≠ .bool :=
    hz.leaves_eq ▸ hsep.1
  refine FieldPair.reads (hz.zero_eq p hp) ((declared_row.mp hz.left).2 _ (FieldPair.mem_left hp)).2
    ((declared_row.mp hz.right).2 _ (FieldPair.mem_right hp)).2 (fun leaf hleaf => ?_)
    (fun leaf hleaf => ?_) ?_
  · exact hsep.1 (p.decl.name :: leaf.1, leaf.2) (mem_leaves_row (FieldPair.mem_left hp) hleaf)
  · exact hbool (p.decl.name :: leaf.1, leaf.2) (mem_leaves_row (FieldPair.mem_right hp) hleaf)
  · intro f g hf hg hd
    have hfg := hz.zero_eq p hp
    rw [hf, hg] at hfg
    exact hinner f g (hf ▸ FieldPair.mem_left hp) hd (Reflected.struct.inj hfg)

/-- Behind a string both fields stay below its level. -/
theorem Separable.pair_flat {z : List FieldPair}
    (hsep : (row (z.map fun p => (p.decl, p.left))).Separable) (hz : OneType z) {p q : FieldPair}
    (hp : p ∈ z) (hq : q ∈ z) (hlt : p.decl.name < q.decl.name) {leaf : List Bytes × LeafKind}
    (hleaf : leaf ∈ p.left.leaves p.decl) (hstring : leaf.2 = .string) :
    q.Flat texts leaf.1.length := by
  intro t ht
  have hlater : ∀ {m : List Bytes × LeafKind},
      (q.decl.name :: m.1, m.2) ∈ (row (z.map fun p => (p.decl, p.left))).leaves →
        m.2 = .number ∧ m.1.length < leaf.1.length :=
    hsep.later (FieldPair.mem_left hp) hleaf hstring hlt
  rcases ht with ht | ht
  · exact level_text hz.left (FieldPair.mem_left hq)
      (fun m hm => hlater (mem_leaves_row (FieldPair.mem_left hq) hm)) ht
  · exact level_text hz.right (FieldPair.mem_right hq)
      (fun m hm => hlater (hz.leaves_eq ▸ mem_leaves_row (FieldPair.mem_right hq) hm)) ht

theorem Separable.reads {f g : Fields} (hsep : f.Separable) (hwell : f.Declared)
    (hzero : f.zero = g.zero) : Reads texts f g := by
  induction f using levelInduction generalizing g with
  | level l ih =>
    obtain ⟨z, rfl, rfl, hz⟩ := exists_oneType hwell hzero
    intro r s hends hkey hkey' h
    have hsort := List.perm_insertionSort (fun p q => p.decl.name ≤ q.decl.name) z
    have hne : ∀ {p q : FieldPair}, p.decl.name < q.decl.name → p.decl.name ≠ q.decl.name :=
      fun hlt heq => List.lt_irrefl _ (heq ▸ hlt)
    have hreadable : FieldPair.Readable texts
        (z.insertionSort fun p q => p.decl.name ≤ q.decl.name) := by
      refine ⟨hz.sorted.imp hne, ?_, ?_, ?_⟩
      · exact fun p hp =>
          ((declared_row.mp hwell).2 _ (FieldPair.mem_left (hsort.subset hp))).1
      · intro p hp
        refine hsep.pair_reads hz (hsort.subset hp) fun f g hf hd hfg => ?_
        exact ih p.decl f hf (hsep.inner hf hd) (declared_inner hwell hf hd) hfg
      · refine hz.sorted.imp_of_mem fun {p q} hp hq hlt leaf hleaf hstring => ?_
        exact hsep.pair_flat hz (hsort.subset hp) (hsort.subset hq) hlt hleaf hstring
    have hends' : ∀ p ∈ z.insertionSort fun p q => p.decl.name ≤ q.decl.name,
        ∀ leaf ∈ p.left.leaves p.decl, leaf.2 = .string → Endings (leaf.1.length + 1) r s :=
      fun p hp leaf hleaf hstring => hends (p.decl.name :: leaf.1, leaf.2)
        (mem_leaves_row (FieldPair.mem_left (hsort.subset hp)) hleaf) hstring
    obtain ⟨hsame, hrs⟩ := hreadable.read hends' (hz.append_eq hkey hkey' h)
    refine ⟨?_, hrs⟩
    rw [conditions_row, conditions_row, List.filterMap_map, List.filterMap_map]
    refine congrArg row (List.filterMap_congr fun p hp => ?_)
    have hp := hsame p (hsort.symm.subset hp)
    rw [FieldPair.Same] at hp
    simp only [Function.comp_apply, hp]

end Fields

/-! ## Equal conditions -/

namespace Reflected

end Reflected

namespace Fields

end Fields

end Reading

end Gocom
