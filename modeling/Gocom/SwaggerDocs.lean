import Gocom.DocsParameters

/-!
# The documentation page

The documentation is made anew for every request, from all handlers. Each is shown under its path and its
method. One type that cannot be described keeps the whole page from being made.
-/

namespace Gocom

open FueledCalls Outcome

/-- A parameter of a handler, or what it returns. -/
structure DocsParam (ι : Type*) where
  valueType : DocsType ι
  serializingType : String
  isMQParameter : Bool := false
  isErrorStatus : Bool := false
  isError : Bool := false

/-- What the documentation asks a handler for. -/
structure DocsHandler (ι : Type*) where
  group : String
  name : String
  routingKey : String
  mqTopic : String := ""
  allowsMethod : String
  hasConsumedMQ : Bool := false
  inTypes : List (DocsParam ι)
  outTypes : List (DocsParam ι)

inductive DocsMethod where
  | get
  | post
  | put
  | patch
  | delete
  | head
  | option
  deriving DecidableEq

def docsMethod (allowsMethod : String) : DocsMethod :=
  if allowsMethod = "GET" then .get
  else if allowsMethod = "POST" then .post
  else if allowsMethod = "PUT" then .put
  else if allowsMethod = "PATCH" then .patch
  else if allowsMethod = "DELETE" then .delete
  else if allowsMethod = "HEAD" then .head
  else if allowsMethod = "OPTION" then .option
  else .post

/-- The content of a request or of a response, under the type it is serialized to. The fixed texts around it
are left out. -/
structure DocsContent where
  serializationType : String
  properties : Option (GoMap Bytes PropertyInfo)

structure QueryInfo where
  tags : List String
  summary : String
  description : String
  operationID : String
  parameters : List ParameterInfo := []
  requestBody : Option DocsContent := none
  response : Option DocsContent := none

/-- The paths, and the descriptions of the groups, which stay for the next page. -/
structure SwaggerConfig where
  paths : GoMap String (GoMap DocsMethod QueryInfo) := .empty
  groupDescriptions : GoMap String String

namespace Docs

variable {ι : Type*} (types : ι → DocsStruct ι)

def getParameterFieldSerializingTagName (w : DocsParam ι) : String :=
  if w.serializingType = "xml" ∨ w.serializingType = "protobuf" ∨ w.serializingType = "hl7" then w.serializingType
  else "json"

/-- Messages and errors are not documented. -/
def isPayload (w : DocsParam ι) : Bool := !w.isMQParameter && !(w.isErrorStatus || w.isError)

def contentType (w : DocsParam ι) : String := "application/" ++ getParameterFieldSerializingTagName w

namespace Handler

variable (fuel : ℕ) (h : DocsHandler ι)

def getSummary : String := s!"接口 {h.group}.{h.name}"

def getDescription : String :=
  if h.hasConsumedMQ then
    s!"接口名称： {h.name}\n\n接口描述： 本文档描述该接口的出入参数，该HTTP请求模式仅为方便单用例测试用，" ++
      s!"实际接入工作建议以消息队列接入形式。\n\n消息队列： {h.mqTopic}\n\n消息路由键： {h.routingKey}\n"
  else s!"接口名称： {h.name}\n"

def getOperationID : String := if h.allowsMethod = "POST" then h.name else h.name ++ "." ++ h.allowsMethod.toLower

/-- The parameter that carries the payload. -/
def payload? : Option (DocsParam ι) := h.inTypes.find? isPayload

def getParametersDocsInfo : Outcome (List ParameterInfo) :=
  match payload? h with
  | none => returns []
  | some it =>
    if h.allowsMethod = "GET" ∨ h.allowsMethod = "HEAD" then
      parseParameters types (getParameterFieldSerializingTagName it) "query" fuel it.valueType
    else
      (parseResponseParameters types (getParameterFieldSerializingTagName it) "body" fuel it.valueType).map
        fun properties => [{ type := "object", name := asciiBytes "body", position := "body", required := true,
                             description := "入参包体".toUTF8.data.toList,
                             schema := some ⟨"object", properties⟩ }]

def getRequestBodyDocsInfo : Outcome DocsContent :=
  match payload? h with
  | none => returns ⟨"", none⟩
  | some it =>
    (parseResponseParameters types (getParameterFieldSerializingTagName it) "body" fuel it.valueType).map
      fun properties => ⟨contentType it, some properties⟩

/-- Of several results the last one is shown. -/
def responsesFrom : List (DocsParam ι) → Option DocsContent → Outcome (Option DocsContent)
  | [], shown => returns shown
  | ot :: outTypes, shown =>
    if isPayload ot then
      (parseResponseParameters types (getParameterFieldSerializingTagName ot) "body" fuel ot.valueType).bind
        fun properties => responsesFrom outTypes (some ⟨contentType ot, some properties⟩)
    else responsesFrom outTypes shown

def getResponsesDocsInfo : Outcome (Option DocsContent) := responsesFrom types fuel h.outTypes none

def path : String := s!"/{h.group}/{h.name}"

/-- What is shown of the handler. -/
def queryInfo (handlerDescriptions : GoMap String String) : Outcome QueryInfo :=
  (getResponsesDocsInfo types fuel h).bind fun response =>
    let description := (handlerDescriptions h.routingKey).getD ""
    let qi : QueryInfo :=
      { tags := [h.group], summary := getSummary h, operationID := getOperationID h, response
        description := if description = "" then getDescription h else description }
    match docsMethod h.allowsMethod with
    | .get | .head | .option => (getParametersDocsInfo types fuel h).map fun parameters => { qi with parameters }
    | .post | .put | .patch | .delete =>
      (getRequestBodyDocsInfo types fuel h).map fun requestBody => { qi with requestBody := some requestBody }

end Handler

open Handler

/-- What a page says of a path and a method. -/
def shown (c : SwaggerConfig) (path : String) (m : DocsMethod) : Option QueryInfo := (c.paths path).bind (· m)

def showQuery (c : SwaggerConfig) (h : DocsHandler ι) (qi : QueryInfo) : SwaggerConfig where
  paths := c.paths.store (path h) (((c.paths (path h)).getD .empty).store (docsMethod h.allowsMethod) qi)
  groupDescriptions :=
    if (c.groupDescriptions h.group).getD "" = "" then c.groupDescriptions.store h.group s!"【{h.group}】的接口清单"
    else c.groupDescriptions

/-- The loop over the handlers. -/
def addHandlers (fuel : ℕ) (handlerDescriptions : GoMap String String) :
    List (DocsHandler ι) → SwaggerConfig → Outcome SwaggerConfig
  | [], c => returns c
  | h :: handlers, c =>
    (queryInfo types fuel h handlerDescriptions).bind fun qi =>
      addHandlers fuel handlerDescriptions handlers (showQuery c h qi)

def handlerGetSwaggerConfig (fuel : ℕ) (groupDescriptions handlerDescriptions : GoMap String String)
    (handlers : List (DocsHandler ι)) : Outcome SwaggerConfig :=
  addHandlers types fuel handlerDescriptions handlers { groupDescriptions }

/-! ## When a page is made -/

/-- The types that a handler is described by. -/
def documented (h : DocsHandler ι) : List (DocsParam ι) := h.outTypes.filter isPayload ++ (payload? h).toList

/-- Where the parameters of the payload are said to be. -/
def position (h : DocsHandler ι) : String := if h.allowsMethod = "GET" ∨ h.allowsMethod = "HEAD" then "query" else "body"

/-- The type is a slice or a struct, or points to one, and what it is described by can be read and does not
contain itself. -/
def IsDescribed (w : DocsParam ι) : Prop :=
  (root? w.valueType ≠ none ∨ isSliceKind w.valueType.deref = true) ∧
    ∀ i, root? w.valueType = some i → Describable types (getParameterFieldSerializingTagName w) i

/-- With this fuel the parameters of a type are found. -/
def Parses (fuel : ℕ) (paramPosition : String) (w : DocsParam ι) : Prop :=
  (parseParameters types (getParameterFieldSerializingTagName w) paramPosition fuel w.valueType).Returns

variable {types} {fuel : ℕ}

theorem parses_mono {fuel' : ℕ} (hle : fuel ≤ fuel') {paramPosition : String} {w : DocsParam ι}
    (h : Parses types fuel paramPosition w) : Parses types fuel' paramPosition w := by
  rw [Parses, parseParameters] at h ⊢
  cases hroot : w.valueType.deref with
  | struct i =>
    rw [hroot] at h
    exact returns_mono parseFields_describes hle h
  | slice elem =>
    rw [hroot] at h
    cases elem with
    | struct j =>
      exact returns_map_iff.mpr (returns_mono parseFields_describes hle (returns_map_iff.mp h))
    | ptr _ | slice _ | array _ | integer _ | bool | string | float32 | float64 | other => trivial
  | ptr _ | array _ | integer _ | bool | string | float32 | float64 | other =>
    rw [hroot] at h
    exact h

theorem parseResponseParameters_returns_iff {w : DocsParam ι} {paramPosition : String} :
    (parseResponseParameters types (getParameterFieldSerializingTagName w) paramPosition fuel w.valueType).Returns ↔
      Parses types fuel paramPosition w := returns_map_iff

theorem responsesFrom_returns_iff {outTypes : List (DocsParam ι)} {shown : Option DocsContent} :
    (responsesFrom types fuel outTypes shown).Returns ↔ ∀ w ∈ outTypes.filter isPayload, Parses types fuel "body" w := by
  induction outTypes generalizing shown with
  | nil => exact iff_of_true trivial (List.forall_mem_nil _)
  | cons ot outTypes ih =>
    rw [responsesFrom, List.filter_cons]
    split_ifs
    · rw [returns_bind_iff fun _ => ih, parseResponseParameters_returns_iff, List.forall_mem_cons]
    · exact ih

theorem queryInfo_returns_iff {h : DocsHandler ι} {handlerDescriptions : GoMap String String} :
    (queryInfo types fuel h handlerDescriptions).Returns ↔
      (∀ w ∈ h.outTypes.filter isPayload, Parses types fuel "body" w) ∧
        ∀ w ∈ (payload? h).toList, Parses types fuel (position h) w := by
  have hparameters : (getParametersDocsInfo types fuel h).Returns ↔
      ∀ w ∈ (payload? h).toList, Parses types fuel (position h) w := by
    rw [getParametersDocsInfo, position]
    cases payload? h with
    | none => exact iff_of_true trivial (List.forall_mem_nil _)
    | some it =>
      rw [Option.toList_some, List.forall_mem_singleton]
      dsimp only
      split_ifs
      · exact Iff.rfl
      · exact returns_map_iff.trans parseResponseParameters_returns_iff
  have hbody : (getRequestBodyDocsInfo types fuel h).Returns ↔
      ∀ w ∈ (payload? h).toList, Parses types fuel "body" w := by
    rw [getRequestBodyDocsInfo]
    cases payload? h with
    | none => exact iff_of_true trivial (List.forall_mem_nil _)
    | some it =>
      rw [Option.toList_some, List.forall_mem_singleton]
      exact returns_map_iff.trans parseResponseParameters_returns_iff
  have hposition : docsMethod h.allowsMethod ≠ .get → docsMethod h.allowsMethod ≠ .head → position h = "body" := by
    intro hget hhead
    refine if_neg fun hmethod => ?_
    rcases hmethod with hmethod | hmethod
    · exact hget (by rw [hmethod]; rfl)
    · exact hhead (by rw [hmethod]; rfl)
  rw [queryInfo, returns_bind_iff, getResponsesDocsInfo, responsesFrom_returns_iff]
  intro response
  cases hmethod : docsMethod h.allowsMethod with
  | get | head | option => exact returns_map_iff.trans hparameters
  | post | put | patch | delete =>
    rw [hposition (by rw [hmethod]; exact fun h => nomatch h) (by rw [hmethod]; exact fun h => nomatch h)]
    exact returns_map_iff.trans hbody

theorem addHandlers_returns_iff {handlerDescriptions : GoMap String String} {handlers : List (DocsHandler ι)}
    {c : SwaggerConfig} : (addHandlers types fuel handlerDescriptions handlers c).Returns ↔
      ∀ h ∈ handlers, (queryInfo types fuel h handlerDescriptions).Returns := by
  induction handlers generalizing c with
  | nil => exact iff_of_true trivial (List.forall_mem_nil _)
  | cons h handlers ih => rw [addHandlers, returns_bind_iff fun _ => ih, List.forall_mem_cons]

/-- The types of a handler, with the places of their parameters. -/
def jobs (h : DocsHandler ι) : List (String × DocsParam ι) :=
  (h.outTypes.filter isPayload).map (Prod.mk "body") ++ (payload? h).toList.map (Prod.mk (position h))

theorem page_returns_iff {groupDescriptions handlerDescriptions : GoMap String String}
    {handlers : List (DocsHandler ι)} :
    (handlerGetSwaggerConfig types fuel groupDescriptions handlerDescriptions handlers).Returns ↔
      ∀ p ∈ handlers.flatMap jobs, Parses types fuel p.1 p.2 := by
  rw [handlerGetSwaggerConfig, addHandlers_returns_iff]
  simp only [queryInfo_returns_iff, List.mem_flatMap, jobs, List.mem_append, List.mem_map]
  constructor
  · rintro h p ⟨g, hg, ⟨w, hw, rfl⟩ | ⟨w, hw, rfl⟩⟩
    · exact (h g hg).1 w hw
    · exact (h g hg).2 w hw
  · intro h g hg
    exact ⟨fun w hw => h _ ⟨g, hg, .inl ⟨w, hw, rfl⟩⟩, fun w hw => h _ ⟨g, hg, .inr ⟨w, hw, rfl⟩⟩⟩

theorem exists_page_iff [Finite ι] (groupDescriptions handlerDescriptions : GoMap String String)
    (handlers : List (DocsHandler ι)) :
    (∃ fuel, (handlerGetSwaggerConfig types fuel groupDescriptions handlerDescriptions handlers).Returns) ↔
      ∀ h ∈ handlers, ∀ w ∈ documented h, IsDescribed types w := by
  have hmono : ∀ (p : String × DocsParam ι) n m, n ≤ m → Parses types n p.1 p.2 → Parses types m p.1 p.2 :=
    fun _ _ _ hle => parses_mono hle
  simp only [page_returns_iff]
  rw [exists_forall_mem_iff hmono]
  simp only [Parses, parseParameters_returns_iff, List.mem_flatMap, jobs, documented, List.mem_append, List.mem_map]
  constructor
  · rintro h g hg w (hw | hw)
    · exact h (_, w) ⟨g, hg, .inl ⟨w, hw, rfl⟩⟩
    · exact h (_, w) ⟨g, hg, .inr ⟨w, hw, rfl⟩⟩
  · rintro h p ⟨g, hg, ⟨w, hw, rfl⟩ | ⟨w, hw, rfl⟩⟩
    · exact h g hg w (.inl hw)
    · exact h g hg w (.inr hw)

/-! ## What a page shows -/

theorem shown_showQuery (c : SwaggerConfig) (h : DocsHandler ι) (qi : QueryInfo) (p : String) (m : DocsMethod) :
    shown (showQuery c h qi) p m =
      if p = path h ∧ m = docsMethod h.allowsMethod then some qi else shown c p m := by
  by_cases hp : p = path h
  · subst hp
    have hpath : (showQuery c h qi).paths (path h) =
        some (((c.paths (path h)).getD .empty).store (docsMethod h.allowsMethod) qi) := GoMap.store_self _ _ _
    rw [shown, hpath, Option.bind_some, GoMap.store_apply]
    by_cases hm : m = docsMethod h.allowsMethod
    · rw [if_pos hm, if_pos ⟨rfl, hm⟩]
    · rw [if_neg hm, if_neg fun h => hm h.2, shown]
      cases c.paths (path h) <;> rfl
  · have hpath : (showQuery c h qi).paths p = c.paths p := GoMap.store_of_ne hp _ _
    rw [shown, hpath, if_neg fun h => hp h.1]
    rfl

variable {handlerDescriptions : GoMap String String}

theorem addHandlers_cons_eq_returns {h : DocsHandler ι} {handlers : List (DocsHandler ι)} {c c' : SwaggerConfig}
    (hpage : addHandlers types fuel handlerDescriptions (h :: handlers) c = returns c') :
    ∃ qi, queryInfo types fuel h handlerDescriptions = returns qi ∧
      addHandlers types fuel handlerDescriptions handlers (showQuery c h qi) = returns c' :=
  bind_eq_returns_iff.mp hpage

/-- What no handler is for stays. -/
theorem shown_of_forall_ne {handlers : List (DocsHandler ι)} {c c' : SwaggerConfig} {p : String} {m : DocsMethod}
    (hpage : addHandlers types fuel handlerDescriptions handlers c = returns c')
    (hne : ∀ g ∈ handlers, ¬ (p = path g ∧ m = docsMethod g.allowsMethod)) : shown c' p m = shown c p m := by
  induction handlers generalizing c with
  | nil =>
    cases hpage
    rfl
  | cons h handlers ih =>
    obtain ⟨qi, -, hpage⟩ := addHandlers_cons_eq_returns hpage
    obtain ⟨hhead, hne⟩ := List.forall_mem_cons.mp hne
    rw [ih hpage hne, shown_showQuery, if_neg hhead]

/-- A handler is shown unless a later one has its path and its method. -/
theorem shown_of_last {before after : List (DocsHandler ι)} {h : DocsHandler ι} {c c' : SwaggerConfig}
    (hpage : addHandlers types fuel handlerDescriptions (before ++ h :: after) c = returns c')
    (hlast : ∀ g ∈ after, ¬ (path h = path g ∧ docsMethod h.allowsMethod = docsMethod g.allowsMethod)) :
    ∃ qi, queryInfo types fuel h handlerDescriptions = returns qi ∧
      shown c' (path h) (docsMethod h.allowsMethod) = some qi := by
  induction before generalizing c with
  | nil =>
    obtain ⟨qi, hqi, hpage⟩ := addHandlers_cons_eq_returns hpage
    refine ⟨qi, hqi, ?_⟩
    rw [shown_of_forall_ne hpage hlast, shown_showQuery, if_pos ⟨rfl, rfl⟩]
  | cons g before ih =>
    obtain ⟨_, _, hpage⟩ := addHandlers_cons_eq_returns hpage
    exact ih hpage

/-- Nothing is shown but handlers. -/
theorem exists_of_shown {handlers : List (DocsHandler ι)} {c c' : SwaggerConfig} {p : String} {m : DocsMethod}
    (hpage : addHandlers types fuel handlerDescriptions handlers c = returns c') (hnone : shown c p m = none)
    (hshown : shown c' p m ≠ none) : ∃ h ∈ handlers, path h = p ∧ docsMethod h.allowsMethod = m := by
  by_contra hnot
  refine hshown ((shown_of_forall_ne hpage fun g hg hboth => hnot ?_).trans hnone)
  exact ⟨g, hg, hboth.1.symm, hboth.2.symm⟩

/-- What is shown names the handler. -/
theorem queryInfo_names {h : DocsHandler ι} {qi : QueryInfo}
    (hqi : queryInfo types fuel h handlerDescriptions = returns qi) :
    qi.tags = [h.group] ∧ qi.summary = getSummary h ∧ qi.operationID = getOperationID h := by
  obtain ⟨response, -, hqi⟩ := bind_eq_returns_iff.mp hqi
  cases hmethod : docsMethod h.allowsMethod with
  | get | head | option | post | put | patch | delete =>
    rw [hmethod] at hqi
    obtain ⟨_, _, rfl⟩ := map_eq_returns_iff.mp hqi
    exact ⟨rfl, rfl, rfl⟩

variable (types)

/-- The page is made exactly if every documented payload (the results of a handler that are no message and no
error, and its first such parameter) is a slice, a struct or a pointer to one, and neither contains itself
nor a struct that does, nor a validation that cannot be read. Then
every handler is shown under its path and method, unless a later one has both, and nothing else is. -/
theorem page_made_iff [Finite ι] (groupDescriptions handlerDescriptions : GoMap String String)
    (handlers : List (DocsHandler ι)) :
    ((∃ fuel c, handlerGetSwaggerConfig types fuel groupDescriptions handlerDescriptions handlers = returns c) ↔
        ∀ h ∈ handlers, ∀ w ∈ documented h, IsDescribed types w) ∧
      ∀ fuel c, handlerGetSwaggerConfig types fuel groupDescriptions handlerDescriptions handlers = returns c →
        (∀ before h after, handlers = before ++ h :: after →
          (∀ g ∈ after, ¬ (path h = path g ∧ docsMethod h.allowsMethod = docsMethod g.allowsMethod)) →
            ∃ qi, shown c (path h) (docsMethod h.allowsMethod) = some qi ∧ qi.tags = [h.group] ∧
              qi.summary = getSummary h ∧ qi.operationID = getOperationID h) ∧
        ∀ p m, shown c p m ≠ none → ∃ h ∈ handlers, path h = p ∧ docsMethod h.allowsMethod = m := by
  refine ⟨?_, fun fuel c hpage => ⟨?_, fun p m hshown => exists_of_shown hpage rfl hshown⟩⟩
  · rw [← exists_page_iff groupDescriptions handlerDescriptions]
    constructor
    · rintro ⟨fuel, c, hpage⟩
      refine ⟨fuel, ?_⟩
      rw [hpage]
      trivial
    · rintro ⟨fuel, hret⟩
      exact ⟨fuel, hret.exists⟩
  · rintro before h after rfl hlast
    obtain ⟨qi, hqi, hshown⟩ := shown_of_last hpage hlast
    exact ⟨qi, hshown, queryInfo_names hqi⟩

/-- A comment that points to the one it answers. -/
def commentTypes : Fin 1 → DocsStruct (Fin 1) := fun _ =>
  ⟨asciiBytes "Comment", [⟨asciiBytes "Text", .string, fun key => if key = "json" then asciiBytes "text" else []⟩,
    ⟨asciiBytes "Parent", .ptr (.struct 0), fun key => if key = "json" then asciiBytes "parent" else []⟩]⟩

def commentHandler : DocsHandler (Fin 1) :=
  { group := "comments", name := "add", routingKey := "comments.add", allowsMethod := "POST", outTypes := []
    inTypes := [⟨.ptr (.struct 0), "json", false, false, false⟩] }

theorem page_made_iff_comment :
    ¬ ∃ fuel c, handlerGetSwaggerConfig commentTypes fuel .empty .empty [commentHandler] = returns c := by
  rw [(page_made_iff commentTypes .empty .empty [commentHandler]).1]
  intro h
  have hdescribed := h commentHandler (List.mem_singleton_self _) ⟨.ptr (.struct 0), "json", false, false, false⟩
    (List.mem_singleton_self _)
  have hchild : (0 : Fin 1) ∈ children commentTypes "json" 0 := by decide
  exact (hdescribed.2 0 rfl 0 .refl).2 (.single hchild)

end Docs
end Gocom
