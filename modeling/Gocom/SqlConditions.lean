import Mathlib.Data.List.Basic
import Mathlib.Tactic.SplitIfs

/-!
# Conditions under precedence

A condition reaches a database as a text. The words OR at its top level, which is outside of
quotes, comments, parentheses and CASE, divide it into alternatives, and the words AND divide an
alternative into factors, but for the AND of a BETWEEN. What is appended with AND therefore joins
the last alternative only.
-/

namespace Gocom
namespace Sql

inductive Token where
  | word (w : List Char)
  | sign (c : Char)
  | and
  | or
  deriving DecidableEq

/-! ## Reading a text -/

/-- A quotation, which a sign closes, or a comment. -/
inductive Opened where
  | quote (closer : Char)
  | line
  | block
  deriving DecidableEq

/-- What is known where a text is read: what is open, how many parentheses and CASEs are, whether a
BETWEEN waits for its AND, the word being read, and a sign before that may begin or end a comment. -/
structure Reader where
  opened : Option Opened := none
  depth : ℕ := 0
  between : Bool := false
  word : List Char := []
  last : Option Char := none
  deriving DecidableEq

inductive Keyword where
  | and
  | or
  | between
  | opensCase
  | closesCase

def keyword (w : List Char) : Option Keyword :=
  let w := w.map Char.toLower
  if w = ['a', 'n', 'd'] then some .and
  else if w = ['o', 'r'] then some .or
  else if w = ['b', 'e', 't', 'w', 'e', 'e', 'n'] then some .between
  else if w = ['c', 'a', 's', 'e'] then some .opensCase
  else if w = ['e', 'n', 'd'] then some .closesCase
  else none

def isWordSign (c : Char) : Bool :=
  c.isAlphanum || c = '_' || c = '$' || c = '#' || c = '@' || 128 ≤ c.toNat

/-- What closes a quotation: a bracket, or the same mark again. -/
def closing (c : Char) : Option Char :=
  if c = '[' then some ']'
  else if c.toNat = 34 ∨ c.toNat = 39 ∨ c.toNat = 96 then some c
  else none

namespace Reader

/-- The end of a word, with the token it is. -/
def endWord (k : Reader) : List Token × Reader :=
  let after := { k with word := [] }
  match keyword k.word with
  | some .and =>
    if k.depth ≠ 0 then ([.word k.word], after)
    else if k.between then ([.word k.word], { after with between := false })
    else ([.and], after)
  | some .or => (if k.depth = 0 then [.or] else [.word k.word], after)
  | some .between => ([.word k.word], if k.depth = 0 then { after with between := true } else after)
  | some .opensCase => ([.word k.word], { after with depth := k.depth + 1 })
  | some .closesCase => ([.word k.word], { after with depth := k.depth - 1 })
  | none => (if k.word = [] then [] else [.word k.word], after)

/-- A sign that ends a word. -/
def sign (k : Reader) (c : Char) : Reader :=
  match closing c with
  | some closer => { k with opened := some (.quote closer), last := none }
  | none =>
    if c = '(' then { k with depth := k.depth + 1, last := none }
    else if c = ')' then { k with depth := k.depth - 1, last := none }
    else if c = '-' ∧ k.last = some '-' then { k with opened := some .line, last := none }
    else if c = '*' ∧ k.last = some '/' then { k with opened := some .block, last := none }
    else { k with last := if c = '-' ∨ c = '/' then some c else none }

def step (k : Reader) (c : Char) : List Token × Reader :=
  match k.opened with
  | some (.quote closer) => ([.sign c], if c = closer then { k with opened := none } else k)
  | some .line => ([], if c.toNat = 10 then { k with opened := none } else k)
  | some .block =>
    ([], if c = '/' ∧ k.last = some '*' then { k with opened := none, last := none }
      else { k with last := some c })
  | none =>
    if isWordSign c then ([], { k with word := k.word ++ [c], last := none })
    else (k.endWord.1 ++ (if c.isWhitespace then [] else [.sign c]), k.endWord.2.sign c)

def read (k : Reader) : List Char → List Token
  | [] => k.endWord.1
  | c :: cs => (k.step c).1 ++ (k.step c).2.read cs

/-- Where a text ends. -/
def finish (k : Reader) : List Char → Reader
  | [] => k.endWord.2
  | c :: cs => (k.step c).2.finish cs

end Reader

def tokens (text : String) : List Token := ({} : Reader).read text.toList

/-- All that a text opens is closed. -/
def Closed (text : String) : Prop := ({} : Reader).finish text.toList = {}

instance (text : String) : Decidable (Closed text) := inferInstanceAs (Decidable (_ = _))

namespace Reader

theorem endWord_opened (k : Reader) : k.endWord.2.opened = k.opened := by
  rw [endWord]
  cases keyword k.word with
  | none => rfl
  | some w => cases w <;> dsimp only <;> split_ifs <;> rfl

/-- Where everything is closed, a blank begins anew. -/
theorem step_blank {k : Reader} (h : k.endWord.2 = {}) : k.step ' ' = (k.endWord.1, {}) := by
  have hopened : k.opened = none := by rw [← endWord_opened, h]
  have hword : isWordSign ' ' = false := by decide
  have hblank : ' '.isWhitespace = true := by decide
  rw [step, hopened]
  dsimp only
  rw [hword, hblank, if_neg Bool.false_ne_true, if_pos rfl, List.append_nil, h]
  rfl

theorem read_append {k : Reader} {cs : List Char} (h : k.finish cs = {}) (ds : List Char) :
    k.read (cs ++ ' ' :: ds) = k.read cs ++ ({} : Reader).read ds := by
  induction cs generalizing k with
  | nil =>
    change (k.step ' ').1 ++ (k.step ' ').2.read ds = k.endWord.1 ++ ({} : Reader).read ds
    rw [step_blank h]
  | cons c cs ih => rw [List.cons_append, read, ih h, read, List.append_assoc]

theorem finish_append {k : Reader} {cs : List Char} (h : k.finish cs = {}) (ds : List Char) :
    k.finish (cs ++ ' ' :: ds) = ({} : Reader).finish ds := by
  induction cs generalizing k with
  | nil =>
    change (k.step ' ').2.finish ds = ({} : Reader).finish ds
    rw [step_blank h]
  | cons c cs ih => exact ih h

end Reader

theorem toList_blank (t u : String) : (t ++ " " ++ u).toList = t.toList ++ ' ' :: u.toList := by
  simp

section Joined

variable {t u : String}

theorem tokens_blank (ht : Closed t) (u : String) : tokens (t ++ " " ++ u) = tokens t ++ tokens u := by
  rw [tokens, toList_blank, Reader.read_append ht]
  rfl

theorem Closed.blank (ht : Closed t) (hu : Closed u) : Closed (t ++ " " ++ u) := by
  rw [Closed, toList_blank, Reader.finish_append ht]
  exact hu

end Joined

/-! ## Alternatives -/

/-- The factors of each alternative. -/
def alternatives (ts : List Token) : List (List (List Token)) :=
  (ts.splitOn .or).map fun alternative => alternative.splitOn .and

/-- Some alternative has no factor that does not hold. -/
def holds (v : List Token → Bool) (ts : List Token) : Bool := (alternatives ts).any fun fs => fs.all v

def earlierAlternatives (ts : List Token) : List (List (List Token)) := (alternatives ts).dropLast

def lastAlternative (ts : List Token) : List (List Token) := (alternatives ts).getLastD []

theorem alternatives_eq (ts : List Token) :
    alternatives ts = earlierAlternatives ts ++ [lastAlternative ts] := by
  have hne : alternatives ts ≠ [] := by simp [alternatives]
  rw [earlierAlternatives, lastAlternative, List.getLastD_eq_getLast?, List.getLast?_eq_some_getLast hne]
  exact (List.dropLast_append_getLast hne).symm

theorem holds_eq (v : List Token → Bool) (ts : List Token) : holds v ts =
    ((earlierAlternatives ts).any (fun fs => fs.all v) || (lastAlternative ts).all v) := by
  rw [holds, alternatives_eq]
  simp

/-- A row of tokens without connectives. -/
def IsFactor (us : List Token) : Prop := .and ∉ us ∧ .or ∉ us

instance (us : List Token) : Decidable (IsFactor us) := inferInstanceAs (Decidable (_ ∧ _))

theorem isFactor_append {us vs : List Token} :
    IsFactor (us ++ vs) ↔ IsFactor us ∧ IsFactor vs := by
  simp only [IsFactor, List.mem_append, not_or]
  exact and_and_and_comm

/-- What has no separator stays with the last piece. -/
theorem splitOn_append {α : Type*} [BEq α] [LawfulBEq α] {a : α} {xs ys : List α} {init : List (List α)}
    {last : List α} (hxs : xs.splitOn a = init ++ [last]) (hys : a ∉ ys) :
    (xs ++ ys).splitOn a = init ++ [last ++ ys] := by
  induction xs generalizing init last with
  | nil =>
    rw [List.splitOn_nil] at hxs
    have hpieces : [] ++ [[]] = init ++ [last] := hxs
    obtain ⟨rfl, hlast⟩ := List.append_inj' hpieces rfl
    obtain rfl := List.singleton_inj.mp hlast
    rw [List.nil_append, List.splitOn_eq_singleton hys]
    rfl
  | cons x xs ih =>
    rw [List.splitOn_cons_eq_if_modifyHead] at hxs
    rw [List.cons_append, List.splitOn_cons_eq_if_modifyHead]
    cases hx : x == a with
    | true =>
      rw [hx, if_pos rfl] at hxs
      cases init with
      | nil => exact absurd (List.cons.inj hxs).2 (List.splitOn_ne_nil a xs)
      | cons p init =>
        obtain ⟨rfl, hrest⟩ := List.cons.inj hxs
        rw [if_pos rfl, ih hrest, List.cons_append]
    | false =>
      rw [hx, if_neg Bool.false_ne_true] at hxs
      rw [if_neg Bool.false_ne_true]
      obtain ⟨p, ps, hsplit⟩ := List.exists_cons_of_ne_nil (List.splitOn_ne_nil a xs)
      rw [hsplit, List.modifyHead_cons] at hxs
      cases init with
      | nil =>
        obtain ⟨rfl, rfl⟩ := List.cons.inj hxs
        rw [ih (show xs.splitOn a = [] ++ [p] from hsplit)]
        rfl
      | cons q init =>
        obtain ⟨rfl, rfl⟩ := List.cons.inj hxs
        rw [ih (show xs.splitOn a = (p :: init) ++ [last] from hsplit)]
        rfl

/-- A factor appended with AND is one of the last alternative. -/
theorem alternatives_and (ts : List Token) {us : List Token} (hus : IsFactor us) :
    alternatives (ts ++ .and :: us) = earlierAlternatives ts ++ [lastAlternative ts ++ [us]] := by
  have hne : ts.splitOn .or ≠ [] := List.splitOn_ne_nil _ _
  obtain ⟨init, last, hsplit⟩ : ∃ init last, ts.splitOn Token.or = init ++ [last] :=
    ⟨_, _, (List.dropLast_append_getLast hne).symm⟩
  have hor : Token.or ∉ Token.and :: us := by simpa using hus.2
  have halternatives : alternatives ts =
      (init.map fun p => p.splitOn Token.and) ++ [last.splitOn Token.and] := by
    rw [alternatives, hsplit, List.map_append, List.map_singleton]
  have hparts := (alternatives_eq ts).symm.trans halternatives
  obtain ⟨hearlier, hlast⟩ := List.append_inj' hparts rfl
  rw [hearlier, List.singleton_inj.mp hlast, alternatives, splitOn_append hsplit hor, List.map_append,
    List.map_singleton, List.splitOn_append_cons_self, List.splitOn_eq_singleton hus.1]

/-- `AND` before each factor. -/
def conjuncts (uss : List (List Token)) : List Token := uss.flatMap (.and :: ·)

theorem alternatives_conjuncts (ts : List Token) {uss : List (List Token)}
    (huss : ∀ us ∈ uss, IsFactor us) :
    alternatives (ts ++ conjuncts uss) = earlierAlternatives ts ++ [lastAlternative ts ++ uss] := by
  induction uss generalizing ts with
  | nil => rw [conjuncts, List.flatMap_nil, List.append_nil, List.append_nil, alternatives_eq]
  | cons us uss ih =>
    obtain ⟨hus, hrest⟩ := List.forall_mem_cons.mp huss
    have hnext := alternatives_and ts hus
    have hearlier : earlierAlternatives (ts ++ .and :: us) = earlierAlternatives ts := by
      rw [earlierAlternatives, hnext, List.dropLast_concat]
    have hlast : lastAlternative (ts ++ .and :: us) = lastAlternative ts ++ [us] := by
      rw [lastAlternative, hnext, List.getLastD_concat]
    have happend : ts ++ conjuncts (us :: uss) = (ts ++ .and :: us) ++ conjuncts uss := by
      simp [conjuncts]
    rw [happend, ih _ hrest, hearlier, hlast, List.append_assoc, List.singleton_append]

/-- Factors that are appended restrict the last alternative only. -/
theorem holds_conjuncts (v : List Token → Bool) (ts : List Token) {uss : List (List Token)}
    (huss : ∀ us ∈ uss, IsFactor us) : holds v (ts ++ conjuncts uss) =
      ((earlierAlternatives ts).any (fun fs => fs.all v) || ((lastAlternative ts).all v && uss.all v)) := by
  rw [holds, alternatives_conjuncts ts huss]
  simp

example : alternatives (tokens "a = 1 or b BETWEEN 1 AND 2 AND (c = 'x OR y' OR d)") =
    alternatives (tokens "a = 1") ++ [[tokens "b BETWEEN 1 AND 2", tokens "(c = 'x OR y' OR d)"]] := by
  decide

end Sql
end Gocom
