import Gocom.GoMaps
import Gocom.OrderedQueue

/-!
# The row cache of the ORM

A cache group keeps two wrappers, one for rows and one for lists of row keys. A wrapper is
a map from serialised conditions to elements together with an ascending queue of the same
elements ordered by expiry. A row stored under a condition other than its primary key is an
indirection to the primary key's element, which lists its indirections in `refKeys`.

Conditions enter as the keys `serializeCondition` gives them; a nil condition has the empty
key. The clock is read once per operation and passed as `now`.
-/

namespace Gocom

/-- `data` is nil for an indirection, which has a nonempty `depKey` instead. -/
structure CacheElement (δ : Type*) where
  expiresAt : ℤ
  key : String
  depKey : String := ""
  refKeys : List String := []
  data : Option δ := none
  deriving DecidableEq

instance (δ : Type*) : IElement (CacheElement δ) where
  getID e := e.key
  orderingValue e := e.expiresAt

structure CacheElementWrapper (δ : Type*) where
  objects : GoMap String (CacheElement δ)
  timerObjects : OrderedQueue (CacheElement δ)

namespace CacheElementWrapper

variable {δ : Type*}

def newCacheElementWrapper : CacheElementWrapper δ :=
  ⟨.empty, OrderedQueue.newAscOrderingQueue⟩

def reset (_ : CacheElementWrapper δ) : CacheElementWrapper δ := newCacheElementWrapper

/-- Delete the key and take the element's timer out of the queue. -/
def discard (w : CacheElementWrapper δ) (key : String) (item : CacheElement δ) :
    CacheElementWrapper δ :=
  ⟨w.objects.delete key, (w.timerObjects.remove item).1⟩

def get (w : CacheElementWrapper δ) (key : String) (removeTimerIfExists : Bool) :
    CacheElementWrapper δ × Option (CacheElement δ) :=
  match w.objects key with
  | none => (w, none)
  | some item => (if removeTimerIfExists then w.discard key item else w, some item)

def remove (w : CacheElementWrapper δ) (key : String) :
    CacheElementWrapper δ × Option (CacheElement δ) :=
  match w.objects key with
  | none => (w, none)
  | some item => (w.discard key item, some item)

def set (w : CacheElementWrapper δ) (key : String) (item : CacheElement δ) :
    CacheElementWrapper δ :=
  ⟨w.objects.store key item, (w.timerObjects.push item).1⟩

/-- The index stays 0 both when the first timer is live and when none is. -/
def cleanTimeouts (w : CacheElementWrapper δ) (now : ℤ) : CacheElementWrapper δ :=
  let timeoutsIndex :=
    (w.timerObjects.elements.findIdx? (fun e => decide (IElement.orderingValue e > now))).getD 0
  if 0 < timeoutsIndex then
    match w.timerObjects.cutBefore timeoutsIndex with
    | some (timers, cuts) => ⟨w.objects.deleteAll (cuts.map IElement.getID), timers⟩
    | none => w
  else w

end CacheElementWrapper

/-- The order in which a `range` over a set of keys visits them: any permutation. -/
structure MapRange where
  order : List String → List String
  perm : ∀ keys, (order keys).Perm keys

def MapRange.asStored : MapRange := ⟨id, fun _ => List.Perm.refl _⟩

structure CacheElementGroup (β : Type*) where
  cachingDurationSeconds : ℤ
  objects : CacheElementWrapper β
  arrayObjects : CacheElementWrapper (List String)
  pkColumns : List String

/-- One record of `setArray`: its bean, the key of its primary key condition (`none` when
the bean has no primary key value), and the clock and iteration order of its `set`. -/
structure Row (β : Type*) where
  bean : β
  pkKey : Option String
  now : ℤ
  range : MapRange

/-- Reading the data of an element: copying nil data panics, copying a bean may fail. -/
inductive BeanRead (β : Type*) where
  | panic
  | failed
  | bean (b : Option β)
  deriving DecidableEq

namespace CacheElementGroup

variable {β : Type*}

def newGroup (cachingDurationSeconds : ℤ) (pkColumns : List String) : CacheElementGroup β :=
  ⟨cachingDurationSeconds, .newCacheElementWrapper, .newCacheElementWrapper, pkColumns⟩

def withObjects (c : CacheElementGroup β) (objects : CacheElementWrapper β) :
    CacheElementGroup β := { c with objects }

/-- `refKeys[key] = true`. -/
def addRefKey (refKeys : List String) (key : String) : List String :=
  if key ∈ refKeys then refKeys else refKeys ++ [key]

def removeAll (w : CacheElementWrapper β) (keys : List String) : CacheElementWrapper β :=
  keys.foldl (fun w k => (w.remove k).1) w

def set (cloneBean : β → Option β) (c : CacheElementGroup β) (range : MapRange) (now : ℤ)
    (bean : β) (key pkKey : String) : CacheElementGroup β :=
  match cloneBean bean with
  | none => c
  | some setBean =>
    let objects := if c.pkColumns.length ≤ 0 ∧ "" = pkKey then c.objects.reset else c.objects
    let (objects, existsEle) := objects.get key true
    let expiresAt := now + c.cachingDurationSeconds
    if "" = pkKey ∨ pkKey = key then
      let objects := match existsEle with
        | some existsEle => removeAll objects (range.order existsEle.refKeys)
        | none => objects
      c.withObjects (objects.set key { expiresAt, key, refKeys := [], data := some setBean })
    else
      let (objects, refKeys) := match (objects.get pkKey false).2 with
        | some existsEle => ((objects.remove pkKey).1, existsEle.refKeys)
        | none => (objects, [])
      let pkEle := { expiresAt, key := pkKey, data := some setBean, refKeys := addRefKey refKeys key }
      let ele := { expiresAt, key, depKey := pkKey }
      c.withObjects ((objects.set pkKey pkEle).set key ele)

def readBean (cloneBean : β → Option β) (cloneResult : Bool) (data : Option β) : BeanRead β :=
  if cloneResult then
    match data with
    | none => .panic
    | some b =>
      match cloneBean b with
      | none => .failed
      | some copy => .bean (some copy)
  else .bean data

/-- A hit is `some`; a miss drops the entries found stale on the way. The outer `none` is a
panic while copying nil data. -/
def get (cloneBean : β → Option β) (c : CacheElementGroup β) (now : ℤ) (key : String)
    (cloneResult : Bool) : Option (CacheElementGroup β × Option (Option β)) :=
  match (c.objects.get key false).2 with
  | none => some (c, none)
  | some e =>
    if now > e.expiresAt then some (c.withObjects (c.objects.remove key).1, none)
    else if "" = e.depKey then
      match readBean cloneBean cloneResult e.data with
      | .panic => none
      | .failed => some (c.withObjects (c.objects.remove key).1, none)
      | .bean b => some (c, some b)
    else
      match (c.objects.get e.depKey false).2 with
      | none => some (c.withObjects (c.objects.remove key).1, none)
      | some pkEle =>
        let dropBoth := c.withObjects ((c.objects.remove key).1.remove e.depKey).1
        if now > pkEle.expiresAt then some (dropBoth, none)
        else
          match readBean cloneBean cloneResult pkEle.data with
          | .panic => none
          | .failed => some (dropBoth, none)
          | .bean b => some (c, some b)

def del (c : CacheElementGroup β) (range : MapRange) (key : String) : CacheElementGroup β :=
  match (c.objects.get key false).2 with
  | none => c
  | some e =>
    let objects := if e.refKeys.length > 0 then removeAll c.objects (range.order e.refKeys)
      else c.objects
    c.withObjects (objects.remove key).1

/-- Cache the rows one by one; `none` when a row without primary key value ends the call. -/
def setRows (cloneBean : β → Option β) (c : CacheElementGroup β) :
    List (Row β) → CacheElementGroup β × Option (List String)
  | [] => (c, some [])
  | row :: rows =>
    match row.pkKey with
    | none => (c, none)
    | some pkKey =>
      let (c, keys) := setRows cloneBean (c.set cloneBean row.range row.now row.bean pkKey "") rows
      (c, keys.map (pkKey :: ·))

/-- `key` is the serialised condition prefixed with limit and offset. The shortened array
duration only decides whether anything is cached; the element expires with the rows. -/
def setArray (cloneBean : β → Option β) (c : CacheElementGroup β) (now : ℤ) (key : String)
    (rows : List (Row β)) : CacheElementGroup β :=
  let arrayCachingDurationSeconds := c.cachingDurationSeconds - 30
  if c.pkColumns.length ≤ 0 ∨ rows.length ≤ 0 ∨ arrayCachingDurationSeconds ≤ 0 then c
  else
    let c := { c with arrayObjects := (c.arrayObjects.get key true).1 }
    match setRows cloneBean c rows with
    | (c, none) => c
    | (c, some cacheObjects) =>
      let ele := { expiresAt := now + c.cachingDurationSeconds, key, data := some cacheObjects }
      { c with arrayObjects := c.arrayObjects.set key ele }

/-- Copy the rows behind the keys in order, until one is missing or cannot be copied; the
flag says whether all were. The type of the beans is taken from the first row, which panics
when that row is an indirection without data. -/
def copyRows (cloneBean : β → Option β) (c : CacheElementGroup β) (first : Bool) :
    List String → Option (List β × Bool)
  | [] => some ([], true)
  | pkey :: pkeys =>
    match (c.objects.get pkey false).2 with
    | none => some ([], false)
    | some one =>
      match one.data with
      | none => if first then none else some ([], false)
      | some b =>
        match cloneBean b with
        | none => some ([], false)
        | some bean => (copyRows cloneBean c false pkeys).map fun (beans, ok) => (bean :: beans, ok)

/-- The list behind `key`, read into `records`; a list that is present and live replaces
`records` by as many slots as it has keys, of which the copied ones are filled. Data that is no
list of keys panics. -/
def getArray (cloneBean : β → Option β) (c : CacheElementGroup β) (now : ℤ) (key : String)
    (records : List (Option β)) : Option (CacheElementGroup β × List (Option β) × Bool) :=
  match (c.arrayObjects.get key false).2 with
  | none => some (c, records, false)
  | some e =>
    if now > e.expiresAt then
      some ({ c with arrayObjects := (c.arrayObjects.remove key).1 }, records, false)
    else
      match e.data with
      | none => none
      | some pkeys =>
        (copyRows cloneBean c true pkeys).map fun (beans, ok) =>
          (c, beans.map some ++ List.replicate (pkeys.length - beans.length) none, ok)

def cleanTimeouts (c : CacheElementGroup β) (now : ℤ) : CacheElementGroup β :=
  { c with objects := c.objects.cleanTimeouts now, arrayObjects := c.arrayObjects.cleanTimeouts now }

/-- The calls made on a group, each with the clock and the iteration order it meets. The
primary key columns become known when the engine first loads the table's structure. -/
inductive Op (β : Type*) where
  | set (range : MapRange) (now : ℤ) (bean : β) (key pkKey : String)
  | get (now : ℤ) (key : String) (cloneResult : Bool)
  | del (range : MapRange) (key : String)
  | setArray (now : ℤ) (key : String) (rows : List (Row β))
  | getArray (now : ℤ) (key : String) (records : List (Option β))
  | cleanTimeouts (now : ℤ)
  | setPkColumns (pkColumns : List String)

/-- The group after a call. A panic while copying happens before anything is written. -/
def apply (cloneBean : β → Option β) (c : CacheElementGroup β) : Op β → CacheElementGroup β
  | .set range now bean key pkKey => c.set cloneBean range now bean key pkKey
  | .get now key cloneResult => ((c.get cloneBean now key cloneResult).map Prod.fst).getD c
  | .del range key => c.del range key
  | .setArray now key rows => c.setArray cloneBean now key rows
  | .getArray now key records => ((c.getArray cloneBean now key records).map Prod.fst).getD c
  | .cleanTimeouts now => c.cleanTimeouts now
  | .setPkColumns pkColumns => { c with pkColumns }

/-- The group after the calls, made one after the other. -/
def runOps (cloneBean : β → Option β) (c : CacheElementGroup β) (ops : List (Op β)) :
    CacheElementGroup β := ops.foldl (apply cloneBean) c

end CacheElementGroup
end Gocom
