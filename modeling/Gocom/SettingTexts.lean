import Gocom.JoinedPairs
import Mathlib.Tactic.SplitIfs
import Mathlib.Tactic.TypeStar

/-!
# Texts of settings

A text of settings has a name, an equals sign and a value for each setting, with white space between
the settings. A value may stand in quotes, and a backslash keeps the letter behind it. The settings
are read letter by letter. Every letter of a text is one of a name, of a value or of one separator, so
that the settings which it was written from without quotes come back only where no letter is lost.
-/

namespace Gocom
namespace SettingTexts

open JoinedPairs

/-- The letters that have a meaning. -/
structure Signs (α : Type*) where
  space : α → Bool
  blank : α
  equals : α
  quote : α
  backslash : α
  space_blank : space blank = true
  space_equals : space equals = false

/-- Where the reader stands, with what it has read of a setting. -/
inductive Place (α : Type*) where
  | gap
  | key (k : List α)
  | keyGap (k : List α)
  | valueGap (k : List α)
  | plain (k v : List α)
  | plainEscape (k v : List α)
  | quoted (k v : List α)
  | quotedEscape (k v : List α)

variable {α : Type*} [DecidableEq α] (g : Signs α)

/-- One letter: the next place, and the setting that ends there. A name needs an equals sign. -/
def step : Place α → α → Option (Place α × List (List α × List α))
  | .gap, c =>
    if g.space c then some (.gap, [])
    else if c = g.equals then some (.valueGap [], [])
    else some (.key [c], [])
  | .key k, c =>
    if c = g.equals then some (.valueGap k, [])
    else if g.space c then some (.keyGap k, [])
    else some (.key (k ++ [c]), [])
  | .keyGap k, c =>
    if g.space c then some (.keyGap k, [])
    else if c = g.equals then some (.valueGap k, [])
    else none
  | .valueGap k, c =>
    if g.space c then some (.valueGap k, [])
    else if c = g.quote then some (.quoted k [], [])
    else if c = g.backslash then some (.plainEscape k [], [])
    else some (.plain k [c], [])
  | .plain k v, c =>
    if g.space c then some (.gap, [(k, v)])
    else if c = g.backslash then some (.plainEscape k v, [])
    else some (.plain k (v ++ [c]), [])
  | .plainEscape k v, c => some (.plain k (v ++ [c]), [])
  | .quoted k v, c =>
    if c = g.quote then some (.gap, [(k, v)])
    else if c = g.backslash then some (.quotedEscape k v, [])
    else some (.quoted k (v ++ [c]), [])
  | .quotedEscape k v, c => some (.quoted k (v ++ [c]), [])

/-- The end of the text; a value that is missing there is empty. -/
def finish : Place α → Option (List (List α × List α))
  | .gap => some []
  | .valueGap k => some [(k, [])]
  | .plain k v => some [(k, v)]
  | _ => none

def scan : Place α → List α → Option (List (List α × List α))
  | p, [] => finish p
  | p, c :: s => (step g p c).bind fun q => (scan q.1 s).map (q.2 ++ ·)

/-- The settings of a text, in order. -/
def read (s : List α) : Option (List (List α × List α)) := scan g .gap s

/-! ## Settings that need no quotes -/

def IsKey (k : List α) : Prop := ∀ c ∈ k, c ≠ g.equals ∧ g.space c = false

/-- A value without white space and escapes, which does not begin like one in quotes. -/
def IsPlain (v : List α) : Prop :=
  v ≠ [] ∧ (∀ c ∈ v, g.space c = false ∧ c ≠ g.backslash) ∧ v.head? ≠ some g.quote

/-- Only the last value may be empty. -/
def Unquoted : List (List α × List α) → Prop
  | [] => True
  | p :: ps => IsKey g p.1 ∧ (IsPlain g p.2 ∨ p.2 = [] ∧ ps = []) ∧ Unquoted ps

instance (k : List α) : Decidable (IsKey g k) := inferInstanceAs (Decidable (∀ c ∈ k, _))

instance (v : List α) : Decidable (IsPlain g v) := inferInstanceAs (Decidable (_ ∧ (∀ c ∈ v, _) ∧ _))

instance decidableUnquoted : ∀ ps, Decidable (Unquoted g ps)
  | [] => inferInstanceAs (Decidable True)
  | p :: ps => by
    have := decidableUnquoted ps
    exact inferInstanceAs (Decidable (_ ∧ (_ ∨ _ ∧ _) ∧ _))

/-! ## Counting letters -/

/-- The letters of settings, each with its equals sign and a separator. -/
def size : List (List α × List α) → ℕ
  | [] => 0
  | p :: ps => p.1.length + p.2.length + 2 + size ps

/-- The letters that a place has kept. -/
def spent : Place α → ℕ
  | .gap => 0
  | .key k | .keyGap k => k.length
  | .valueGap k => k.length + 1
  | .plain k v | .plainEscape k v | .quoted k v | .quotedEscape k v => k.length + 1 + v.length

omit [DecidableEq α] in
theorem size_append (ps qs : List (List α × List α)) : size (ps ++ qs) = size ps + size qs := by
  induction ps with
  | nil => simp [size]
  | cons p ps ih =>
    rw [List.cons_append, size, size, ih]
    omega

omit [DecidableEq α] in
theorem size_text (p : List α × List α) (ps : List (List α × List α)) :
    size (p :: ps) = (text g.blank g.equals (p :: ps)).length + 1 := by
  induction ps generalizing p with
  | nil =>
    simp only [size, text, piece, List.length_append, List.length_cons]
    omega
  | cons q ps ih =>
    rw [size, ih q]
    simp only [text, piece, List.length_append, List.length_cons]
    omega

variable {g}

/-- A letter is kept at most once, where the separator of a setting is counted with it. -/
theorem size_step {p q : Place α} {c : α} {out : List (List α × List α)} (h : step g p c = some (q, out)) :
    size out + spent q ≤ spent p + 1 := by
  cases p <;> simp only [step] at h <;> (try split_ifs at h) <;>
    simp only [Option.some.injEq, Prod.mk.injEq] at h <;> obtain ⟨rfl, rfl⟩ := h <;>
    simp only [size, spent, List.length_append, List.length_cons, List.length_nil] <;> omega

omit [DecidableEq α] in
theorem size_finish {p : Place α} {out : List (List α × List α)} (h : finish p = some out) :
    size out ≤ spent p + 1 := by
  cases p <;> simp only [finish, Option.some.injEq, reduceCtorEq] at h <;> subst h <;>
    simp only [size, spent, List.length_nil] <;> omega

theorem scan_cons {p : Place α} {c : α} {s : List α} {ps : List (List α × List α)}
    (h : scan g p (c :: s) = some ps) :
    ∃ q out rest, step g p c = some (q, out) ∧ scan g q s = some rest ∧ ps = out ++ rest := by
  rw [scan, Option.bind_eq_some_iff] at h
  obtain ⟨⟨q, out⟩, hstep, hrest⟩ := h
  obtain ⟨rest, hscan, rfl⟩ := Option.map_eq_some_iff.mp hrest
  exact ⟨q, out, rest, hstep, hscan, rfl⟩

/-- The settings of a text have no more letters than it. -/
theorem size_scan {p : Place α} {s : List α} {ps : List (List α × List α)} (h : scan g p s = some ps) :
    size ps ≤ spent p + s.length + 1 := by
  induction s generalizing p ps with
  | nil => exact size_finish h
  | cons c s ih =>
    obtain ⟨q, out, rest, hstep, hscan, rfl⟩ := scan_cons h
    have hletter := size_step hstep
    have hrest := ih hscan
    rw [size_append, List.length_cons]
    omega

/-! ## Texts that lose no letter -/

variable (g) in
/-- Every letter has been kept so far, and nothing was in quotes. -/
def Intact : Place α → Prop
  | .gap => True
  | .key k | .valueGap k => IsKey g k
  | .plain k v => IsKey g k ∧ IsPlain g v
  | _ => False

omit [DecidableEq α] in
theorem IsKey.concat {k : List α} {c : α} (h : IsKey g k) (hequals : c ≠ g.equals)
    (hspace : g.space c = false) : IsKey g (k ++ [c]) :=
  List.forall_mem_append.mpr ⟨h, List.forall_mem_singleton.mpr ⟨hequals, hspace⟩⟩

omit [DecidableEq α] in
theorem isPlain_singleton {c : α} (hspace : g.space c = false) (hbackslash : c ≠ g.backslash)
    (hquote : c ≠ g.quote) : IsPlain g [c] :=
  ⟨List.cons_ne_nil c [], List.forall_mem_singleton.mpr ⟨hspace, hbackslash⟩,
    fun h => hquote (Option.some.inj h)⟩

omit [DecidableEq α] in
theorem IsPlain.concat {v : List α} {c : α} (h : IsPlain g v) (hspace : g.space c = false)
    (hbackslash : c ≠ g.backslash) : IsPlain g (v ++ [c]) := by
  obtain ⟨hne, hletters, hquote⟩ := h
  refine ⟨List.append_ne_nil_of_left_ne_nil hne _,
    List.forall_mem_append.mpr ⟨hletters, List.forall_mem_singleton.mpr ⟨hspace, hbackslash⟩⟩, ?_⟩
  rwa [List.head?_append_of_ne_nil v hne]

/-- A letter that is kept leaves an intact place, and a setting that ends with it was plain. -/
theorem intact_step {p q : Place α} {c : α} {out : List (List α × List α)} (hp : Intact g p)
    (h : step g p c = some (q, out)) (hsize : size out + spent q = spent p + 1) :
    Intact g q ∧ ∀ r ∈ out, IsKey g r.1 ∧ IsPlain g r.2 := by
  cases p with
  | gap =>
    simp only [step] at h
    split_ifs at h with hspace hequals <;> cases h
    · simp [size, spent] at hsize
    · exact ⟨fun c hc => absurd hc List.not_mem_nil, fun r hr => absurd hr List.not_mem_nil⟩
    · refine ⟨?_, fun r hr => absurd hr List.not_mem_nil⟩
      exact List.forall_mem_singleton.mpr ⟨hequals, Bool.eq_false_iff.mpr hspace⟩
  | key k =>
    simp only [step] at h
    split_ifs at h with hequals hspace <;> cases h
    · exact ⟨hp, fun r hr => absurd hr List.not_mem_nil⟩
    · simp [size, spent] at hsize
    · exact ⟨hp.concat hequals (Bool.eq_false_iff.mpr hspace), fun r hr => absurd hr List.not_mem_nil⟩
  | valueGap k =>
    simp only [step] at h
    split_ifs at h with hspace hquote hbackslash <;> cases h
    · simp [size, spent] at hsize
    · simp [size, spent] at hsize
    · simp [size, spent] at hsize
    · refine ⟨⟨hp, ?_⟩, fun r hr => absurd hr List.not_mem_nil⟩
      exact isPlain_singleton (Bool.eq_false_iff.mpr hspace) hbackslash hquote
  | plain k v =>
    simp only [step] at h
    split_ifs at h with hspace hbackslash <;> cases h
    · exact ⟨trivial, List.forall_mem_singleton.mpr hp⟩
    · simp [size, spent] at hsize
    · refine ⟨⟨hp.1, hp.2.concat (Bool.eq_false_iff.mpr hspace) hbackslash⟩, fun r hr => ?_⟩
      exact absurd hr List.not_mem_nil
  | keyGap k => exact hp.elim
  | plainEscape k v => exact hp.elim
  | quoted k v => exact hp.elim
  | quotedEscape k v => exact hp.elim

omit [DecidableEq α] in
theorem unquoted_append {out rest : List (List α × List α)}
    (hout : ∀ r ∈ out, IsKey g r.1 ∧ IsPlain g r.2) (hrest : Unquoted g rest) : Unquoted g (out ++ rest) := by
  induction out with
  | nil => exact hrest
  | cons r out ih =>
    obtain ⟨⟨hkey, hplain⟩, hout⟩ := List.forall_mem_cons.mp hout
    exact ⟨hkey, .inl hplain, ih hout⟩

omit [DecidableEq α] in
theorem unquoted_finish {p : Place α} {out : List (List α × List α)} (hp : Intact g p)
    (h : finish p = some out) : Unquoted g out := by
  cases p with
  | gap =>
    obtain rfl := Option.some.inj h
    exact trivial
  | valueGap k =>
    obtain rfl := Option.some.inj h
    exact ⟨hp, .inr ⟨rfl, rfl⟩, trivial⟩
  | plain k v =>
    obtain rfl := Option.some.inj h
    exact ⟨hp.1, .inl hp.2, trivial⟩
  | key k => cases h
  | keyGap k => exact hp.elim
  | plainEscape k v => exact hp.elim
  | quoted k v => exact hp.elim
  | quotedEscape k v => exact hp.elim

/-- If the settings have all letters of the text, none was in quotes. -/
theorem unquoted_of_size {p : Place α} {s : List α} {ps : List (List α × List α)} (hp : Intact g p)
    (h : scan g p s = some ps) (hsize : size ps = spent p + s.length + 1) : Unquoted g ps := by
  induction s generalizing p ps with
  | nil => exact unquoted_finish hp h
  | cons c s ih =>
    obtain ⟨q, out, rest, hstep, hscan, rfl⟩ := scan_cons h
    have hletter := size_step hstep
    have hrest := size_scan hscan
    rw [size_append, List.length_cons] at hsize
    obtain ⟨hq, hout⟩ := intact_step hp hstep (by omega)
    exact unquoted_append hout (ih hq hscan (by omega))

/-! ## Reading what needs no quotes -/

theorem scan_kept {p q : Place α} {c : α} (h : step g p c = some (q, [])) (s : List α) :
    scan g p (c :: s) = scan g q s := by
  rw [scan, h, Option.bind_some]
  exact Option.map_id'

theorem scan_key {w : List α} (h : IsKey g w) (k s : List α) :
    scan g (.key k) (w ++ s) = scan g (.key (k ++ w)) s := by
  induction w generalizing k with
  | nil => rw [List.nil_append, List.append_nil]
  | cons c w ih =>
    obtain ⟨⟨hequals, hspace⟩, hw⟩ := List.forall_mem_cons.mp h
    have hstep : step g (.key k) c = some (.key (k ++ [c]), []) := by
      simp [step, hequals, hspace]
    rw [List.cons_append, scan_kept hstep, ih hw, List.append_assoc, List.singleton_append]

/-- A name, also an empty one, is read up to its equals sign. -/
theorem scan_name {k : List α} (h : IsKey g k) (s : List α) :
    scan g .gap (k ++ g.equals :: s) = scan g (.valueGap k) s := by
  cases k with
  | nil =>
    have hstep : step g .gap g.equals = some (.valueGap [], []) := by
      simp [step, g.space_equals]
    exact scan_kept hstep s
  | cons c k =>
    obtain ⟨⟨hequals, hspace⟩, hk⟩ := List.forall_mem_cons.mp h
    have hstep : step g .gap c = some (.key [c], []) := by simp [step, hequals, hspace]
    have hend : step g (.key (c :: k)) g.equals = some (.valueGap (c :: k), []) := by simp [step]
    rw [List.cons_append, scan_kept hstep, scan_key hk, List.singleton_append, scan_kept hend]

theorem scan_letters {w : List α} (h : ∀ c ∈ w, g.space c = false ∧ c ≠ g.backslash) (k v s : List α) :
    scan g (.plain k v) (w ++ s) = scan g (.plain k (v ++ w)) s := by
  induction w generalizing v with
  | nil => rw [List.nil_append, List.append_nil]
  | cons c w ih =>
    obtain ⟨⟨hspace, hbackslash⟩, hw⟩ := List.forall_mem_cons.mp h
    have hstep : step g (.plain k v) c = some (.plain k (v ++ [c]), []) := by
      simp [step, hspace, hbackslash]
    rw [List.cons_append, scan_kept hstep, ih hw, List.append_assoc, List.singleton_append]

theorem scan_value {v : List α} (h : IsPlain g v) (k s : List α) :
    scan g (.valueGap k) (v ++ s) = scan g (.plain k v) s := by
  obtain ⟨hne, hletters, hquote⟩ := h
  cases v with
  | nil => exact absurd rfl hne
  | cons c v =>
    obtain ⟨⟨hspace, hbackslash⟩, hv⟩ := List.forall_mem_cons.mp hletters
    have hc : c ≠ g.quote := fun hc => hquote (congrArg some hc)
    have hstep : step g (.valueGap k) c = some (.plain k [c], []) := by
      simp [step, hspace, hbackslash, hc]
    rw [List.cons_append, scan_kept hstep, scan_letters hv, List.singleton_append]

/-- A value ends where the white space before the next setting begins. -/
theorem scan_blank (k v s : List α) :
    scan g (.plain k v) (g.blank :: s) = (scan g .gap s).map ((k, v) :: ·) := by
  have hstep : step g (.plain k v) g.blank = some (.gap, [(k, v)]) := by
    simp [step, g.space_blank]
  rw [scan, hstep, Option.bind_some]
  rfl

theorem read_text {ps : List (List α × List α)} (h : Unquoted g ps) :
    read g (text g.blank g.equals ps) = some ps := by
  induction ps with
  | nil => rfl
  | cons p ps ih =>
    obtain ⟨hkey, hvalue, hps⟩ := h
    cases ps with
    | nil =>
      rw [read, text, piece, scan_name hkey]
      rcases hvalue with hplain | ⟨hempty, -⟩
      · have hend := scan_value hplain p.1 []
        rw [List.append_nil] at hend
        exact hend
      · rw [hempty]
        exact congrArg (fun v => some [(p.1, v)]) hempty.symm
    | cons q ps =>
      rcases hvalue with hplain | ⟨-, hlast⟩
      · have hrest : scan g .gap (text g.blank g.equals (q :: ps)) = some (q :: ps) := ih hps
        rw [read, text, piece, List.append_assoc, List.cons_append, scan_name hkey, scan_value hplain,
          scan_blank, hrest]
        rfl
      · cases hlast

/-- Settings come back from their text exactly if none of them needs quotes. -/
theorem read_text_iff {ps : List (List α × List α)} :
    read g (text g.blank g.equals ps) = some ps ↔ Unquoted g ps := by
  constructor
  · intro h
    cases ps with
    | nil => exact trivial
    | cons p ps =>
      refine unquoted_of_size (p := .gap) trivial h ?_
      rw [size_text g, spent, Nat.zero_add]
  · exact read_text

end SettingTexts
end Gocom
