/- digest: Admission of requests by token, and which project ids handlers read unchecked. -/

import Mathlib.Data.List.DropRight

set_option autoImplicit false

namespace ContextEngine

open List

/-- Bytes, each as the character of its code. -/
abbrev ByteText := List Char

section Parsing

def splitOnce (separator : Char) (text : ByteText) : Option (ByteText × ByteText) :=
  match text.dropWhile (· ≠ separator) with
  | [] => none
  | _ :: rest => some (text.takeWhile (· ≠ separator), rest)

variable (text : ByteText)

/-- The value of a nonempty run of decimal digits. -/
def parseDigits : Option Nat :=
  if text ≠ [] ∧ text.all Char.isDigit then
    some (text.foldl (fun value c => value * 10 + (c.toNat - '0'.toNat)) 0)
  else none

def parseI64 : Option Int :=
  if text.head? = some '-' then
    (parseDigits text.tail).bind fun n => if n ≤ 9223372036854775808 then some (-n) else none
  else
    (parseDigits (if text.head? = some '+' then text.tail else text)).bind fun n =>
      if n < 9223372036854775808 then some n else none

def hexValue (c : Char) : Option Nat :=
  if c.isDigit then some (c.toNat - '0'.toNat)
  else if 'a' ≤ c ∧ c ≤ 'f' then some (c.toNat - 'a'.toNat + 10)
  else if 'A' ≤ c ∧ c ≤ 'F' then some (c.toNat - 'A'.toNat + 10)
  else none

/-- Percent-decoding; a percent sign without two hex digits stands for itself. -/
def percentDecode : ByteText → ByteText
  | '%' :: high :: low :: rest =>
    match hexValue high, hexValue low with
    | some h, some l => Char.ofNat (16 * h + l) :: percentDecode rest
    | _, _ => '%' :: percentDecode (high :: low :: rest)
  | c :: rest => c :: percentDecode rest
  | [] => []

/-- A name or value of a form-urlencoded string. -/
def formDecode : ByteText :=
  percentDecode (text.map fun c => if c = '+' then ' ' else c)

/-- A pair of a form-urlencoded string; without `=` its value is empty. -/
def formPair (pair : ByteText) : ByteText × ByteText :=
  match splitOnce '=' pair with
  | some (name, value) => (formDecode name, formDecode value)
  | none => (formDecode pair, [])

end Parsing

/-- Reads the top-level `project_id` of a JSON text, where it is an integer. -/
structure JsonReader where
  projectId : ByteText → Option Int
  projectId_nil : projectId [] = none

/-- A request as it arrives; its path has no query string. -/
structure Request where
  path : ByteText
  query : Option ByteText
  isGet : Bool
  contentType : Option ByteText
  authorization : Option ByteText
  apiToken : Option ByteText
  body : ByteText
  pathOnly : '?' ∉ path

section Tokens

/-- A token's digest and scope. -/
structure StoredToken where
  hash : String
  fingerprint : String
  projects : List Int
  quotaBytes : Option Nat

def minTokenLen : Nat := 16

def authenticate (hashToken : ByteText → String) (entries : List StoredToken)
    (presented : ByteText) : Option StoredToken :=
  if presented.length < minTokenLen then none
  else entries.find? fun entry => entry.hash = hashToken presented

structure AdmissionContext where
  fingerprint : String
  projects : List Int
  quotaBytes : Option Nat
  isAdmin : Bool
  deriving DecidableEq

namespace AdmissionContext

/-- An admin token without projects covers every project. -/
def allowsProject (context : AdmissionContext) (projectId : Int) : Bool :=
  if context.isAdmin && context.projects.isEmpty then true
  else context.projects.contains projectId

end AdmissionContext

end Tokens

section Paths

variable (path : ByteText)

/-- What stands before a question mark. -/
def cleanPath : ByteText := path.takeWhile (· ≠ '?')

def occursIn (needle path : ByteText) : Bool := path.tails.any needle.isPrefixOf

def isGatewayPath : Bool := occursIn "/ingest/".toList (cleanPath path)

def AdmissionContext.allowsPath (context : AdmissionContext) (path : ByteText) : Bool :=
  context.isAdmin || isGatewayPath path

def isPublicPath (prefixes : List ByteText) : Bool :=
  prefixes.any fun start => path = start || (start ++ ['/']).isPrefixOf path

def projectIdFromPath : Option Int :=
  match ((cleanPath path).splitOn '/').filter (· ≠ []) with
  | api :: project :: id :: _ =>
    if api = "api".toList ∧ project = "project".toList then parseI64 id else none
  | _ => none

/-- The walk over the pairs of a query string, which ends at a pair without `=`. -/
def projectIdFromPairs : List ByteText → Option Int
  | [] => none
  | pair :: pairs =>
    match splitOnce '=' pair with
    | none => none
    | some (key, value) =>
      if key = "project_id".toList then parseI64 value else projectIdFromPairs pairs

def projectIdFromQuery (query : Option ByteText) : Option Int :=
  query.bind fun query => projectIdFromPairs (query.splitOn '&')

end Paths

section Middleware

/-- The gate of a router, with what its rate limiter says at the moment. -/
structure AdmissionGate where
  store : List StoredToken
  adminStore : List StoredToken
  publicPrefixes : List ByteText
  maxBodyBytes : Nat
  checkRate : String → Bool

structure Rejection where
  status : Nat
  code : String
  message : String
  deriving DecidableEq

/-- Blanks around a header value. -/
def trimHeader (text : ByteText) : ByteText :=
  (text.dropWhile fun c => c = ' ' || c = '\t').rdropWhile fun c => c = ' ' || c = '\t'

def presentedToken (request : Request) : Option ByteText :=
  let bearer := (request.authorization.bind (splitOnce ' ')).bind fun (scheme, token) =>
    if scheme.map Char.toLower = "bearer".toList ∧ trimHeader token ≠ [] then
      some (trimHeader token)
    else none
  match bearer with
  | some token => some token
  | none => (request.apiToken.map trimHeader).filter (· ≠ [])

/-- The token's entry, and whether it is a management token. -/
def authenticateRequest (hashToken : ByteText → String) (gate : AdmissionGate)
    (token : ByteText) : Option (StoredToken × Bool) :=
  match authenticate hashToken gate.adminStore token with
  | some entry => some (entry, true)
  | none => (authenticate hashToken gate.store token).map fun entry => (entry, false)

/-- Whether the gate looks into the body. -/
def readsBody (request : Request) : Bool :=
  request.contentType.any "application/json".toList.isPrefixOf && !request.isGet

/-- The project ids the gate finds. -/
def candidates (json : JsonReader) (request : Request) : List Int :=
  (projectIdFromPath request.path).toList ++ (projectIdFromQuery request.query).toList ++
    (if readsBody request && !request.body.isEmpty then (json.projectId request.body).toList
      else [])

def authRequired (message : String) : Rejection := ⟨401, "AUTH_REQUIRED", message⟩

def projectForbidden (message : String) : Rejection := ⟨403, "PROJECT_FORBIDDEN", message⟩

def admissionMiddleware (hashToken : ByteText → String) (json : JsonReader) (gate : AdmissionGate)
    (request : Request) : Except Rejection (Option AdmissionContext) :=
  if isPublicPath request.path gate.publicPrefixes then .ok none
  else
    match presentedToken request with
    | none => .error (authRequired "missing or malformed authorization header")
    | some token =>
      match authenticateRequest hashToken gate token with
      | none => .error (authRequired "unknown token")
      | some (entry, isAdmin) =>
        let context : AdmissionContext :=
          ⟨entry.fingerprint, entry.projects, entry.quotaBytes, isAdmin⟩
        if !context.allowsPath request.path then
          .error (projectForbidden "gateway tokens may only call ingest entries")
        else if !gate.checkRate entry.hash then
          .error ⟨429, "RATE_LIMITED", "token rate budget exhausted"⟩
        else if readsBody request && gate.maxBodyBytes < request.body.length then
          .error ⟨413, "BODY_TOO_LARGE", "request body exceeds the admission limit"⟩
        else if (candidates json request).all context.allowsProject then .ok (some context)
        else .error (projectForbidden "token is not authorized for this project")

end Middleware

section Handlers

def pathParameter (path : ByteText) : Option ByteText :=
  match path.splitOn '/' with
  | first :: api :: project :: id :: _ =>
    if first = [] ∧ api = "api".toList ∧ project = "project".toList then some id else none
  | _ => none

/-- The id a handler reads from a pair of the query string. -/
def pairId (pair : ByteText) : Option Int :=
  if (formPair pair).1 = "project_id".toList then parseI64 (formPair pair).2 else none

def queryPairs (request : Request) : List ByteText :=
  (request.query.map (List.splitOn '&')).getD []

/-- The ids a handler can read from a request; `acceptsJson` is the framework's test of the content
    type of a JSON body. -/
def handlerIds (json : JsonReader) (acceptsJson : Option ByteText → Bool) (request : Request) :
    List Int :=
  ((pathParameter request.path).bind fun id => parseI64 (percentDecode id)).toList ++
    (queryPairs request).filterMap pairId ++
    (if acceptsJson request.contentType then (json.projectId request.body).toList else [])

end Handlers

section Plain

variable {text : ByteText}

theorem all_isDigit_of_parseDigits {n : Nat} (parsed : parseDigits text = some n) :
    text.all Char.isDigit = true := by
  rw [parseDigits] at parsed
  split_ifs at parsed with digits
  exact digits.2

theorem plain_of_parseI64 {n : Int} (parsed : parseI64 text = some n) :
    text.all Char.isDigit = true ∨
      ∃ digits, digits.all Char.isDigit = true ∧ (text = '+' :: digits ∨ text = '-' :: digits) := by
  rw [parseI64] at parsed
  by_cases minus : text.head? = some '-'
  · rw [if_pos minus] at parsed
    obtain ⟨m, digits, -⟩ := Option.bind_eq_some_iff.1 parsed
    have split := eq_cons_of_mem_head? minus
    exact Or.inr ⟨_, all_isDigit_of_parseDigits digits, Or.inr split⟩
  · rw [if_neg minus] at parsed
    obtain ⟨m, digits, -⟩ := Option.bind_eq_some_iff.1 parsed
    have plain := all_isDigit_of_parseDigits digits
    by_cases plus : text.head? = some '+'
    · rw [if_pos plus] at plain
      exact Or.inr ⟨_, plain, Or.inl (eq_cons_of_mem_head? plus)⟩
    · rw [if_neg plus] at plain
      exact Or.inl plain

theorem percentDecode_of_plain (plain : '%' ∉ text) :
    percentDecode text = text := by
  induction text using percentDecode.induct with
  | case1 high low rest h l highValue lowValue ih => exact absurd mem_cons_self plain
  | case2 high low rest notHex ih => exact absurd mem_cons_self plain
  | case3 c rest other ih =>
    rw [percentDecode.eq_def]
    split
    · next same =>
        rw [same] at plain
        exact absurd mem_cons_self plain
    · next same =>
        obtain ⟨rfl, rfl⟩ := cons.inj same
        rw [ih fun mem => plain (mem_cons_of_mem _ mem)]
    · next same => cases same
  | case4 => rfl

theorem not_mem_of_digits {c : Char} (digits : text.all Char.isDigit = true)
    (other : c.isDigit = false) : c ∉ text := by
  intro mem
  rw [all_eq_true] at digits
  rw [digits c mem] at other
  cases other

theorem percentDecode_of_parseI64 {n : Int} (parsed : parseI64 text = some n) :
    percentDecode text = text := by
  apply percentDecode_of_plain
  rcases plain_of_parseI64 parsed with digits | ⟨rest, digits, rfl | rfl⟩
  · exact not_mem_of_digits digits (by decide)
  · rw [mem_cons, not_or]
    exact ⟨by decide, not_mem_of_digits digits (by decide)⟩
  · rw [mem_cons, not_or]
    exact ⟨by decide, not_mem_of_digits digits (by decide)⟩

theorem parseI64_formDecode {n m : Int} (parsed : parseI64 text = some n)
    (decoded : parseI64 (formDecode text) = some m) : m = n := by
  by_cases signed : '+' ∈ text
  · rcases plain_of_parseI64 parsed with digits | ⟨rest, digits, rfl | rfl⟩
    · exact absurd signed (not_mem_of_digits digits (by decide))
    · -- the sign becomes a blank, with which no integer begins
      have blank : formDecode ('+' :: rest) = ' ' :: rest := by
        have plain : '+' ∉ rest := not_mem_of_digits digits (by decide)
        have same : (rest.map fun c => if c = '+' then ' ' else c) = rest := by
          refine (map_congr_left fun c mem => ?_).trans (map_id rest)
          rw [if_neg]
          · rfl
          · rintro rfl
            exact plain mem
        rw [formDecode, map_cons, if_pos rfl, same]
        apply percentDecode_of_plain
        rw [mem_cons, not_or]
        exact ⟨by decide, not_mem_of_digits digits (by decide)⟩
      rw [blank] at decoded
      rcases plain_of_parseI64 decoded with digits | ⟨rest, digits, same | same⟩
      · exact absurd mem_cons_self (not_mem_of_digits digits (by decide))
      · cases same
      · cases same
    · rcases mem_cons.1 signed with same | mem
      · exact absurd same (by decide)
      · exact absurd mem (not_mem_of_digits digits (by decide))
  · have same : (text.map fun c => if c = '+' then ' ' else c) = text := by
      refine (map_congr_left fun c mem => ?_).trans (map_id text)
      rw [if_neg]
      · rfl
      · rintro rfl
        exact signed mem
    rw [formDecode, same, percentDecode_of_parseI64 parsed, parsed] at decoded
    exact (Option.some.inj decoded).symm

end Plain

section Unchecked

/-- The pairs besides the one the gate takes the project id from: those it passes over, those from
    the first pair without `=` on, and those behind a pair it ends at. -/
def uncheckedPairs : List ByteText → List ByteText
  | [] => []
  | pair :: pairs =>
    match splitOnce '=' pair with
    | none => pair :: pairs
    | some (key, value) =>
      if key = "project_id".toList then
        if (parseI64 value).isSome then pairs else pair :: pairs
      else pair :: uncheckedPairs pairs

variable (json : JsonReader) (acceptsJson : Option ByteText → Bool) (request : Request)

/-- The id of an escaped path segment, those of the unchecked pairs, and that of a JSON body the
    gate does not look into. -/
def uncheckedIds :
    List Int :=
  ((pathParameter request.path).bind fun id =>
    if (parseI64 id).isSome then none else parseI64 (percentDecode id)).toList ++
  (uncheckedPairs (queryPairs request)).filterMap pairId ++
  (if acceptsJson request.contentType && !readsBody request then
    (json.projectId request.body).toList else [])

theorem uncheckedPairs_subset {pairs : List ByteText} {pair : ByteText}
    (mem : pair ∈ uncheckedPairs pairs) : pair ∈ pairs := by
  induction pairs with
  | nil => exact mem
  | cons first pairs ih =>
    rw [uncheckedPairs.eq_def] at mem
    dsimp only at mem
    split at mem
    · exact mem
    · split_ifs at mem
      · exact mem_cons_of_mem _ mem
      · exact mem
      · rcases mem_cons.1 mem with rfl | later
        · exact mem_cons_self
        · exact mem_cons_of_mem _ (ih later)

theorem pairId_checked {pairs : List ByteText} {id : Int} (mem : id ∈ pairs.filterMap pairId) :
    projectIdFromPairs pairs = some id ∨ id ∈ (uncheckedPairs pairs).filterMap pairId := by
  induction pairs with
  | nil => exact absurd mem not_mem_nil
  | cons pair pairs ih =>
    rw [uncheckedPairs.eq_def, projectIdFromPairs.eq_def]
    dsimp only
    cases split : splitOnce '=' pair with
    | none => exact Or.inr mem
    | some parts =>
      obtain ⟨key, value⟩ := parts
      dsimp only
      split_ifs with named parsed
      · obtain ⟨n, parsed⟩ := Option.isSome_iff_exists.1 parsed
        rw [mem_filterMap] at mem
        obtain ⟨source, sourceMem, read⟩ := mem
        rcases mem_cons.1 sourceMem with rfl | later
        · rw [pairId, formPair, split] at read
          dsimp only at read
          split_ifs at read
          rw [parsed, parseI64_formDecode parsed read]
          exact Or.inl rfl
        · exact Or.inr (mem_filterMap.2 ⟨source, later, read⟩)
      · exact Or.inr mem
      · rw [mem_filterMap] at mem
        obtain ⟨source, sourceMem, read⟩ := mem
        rcases mem_cons.1 sourceMem with rfl | later
        · exact Or.inr (mem_filterMap.2 ⟨source, mem_cons_self, read⟩)
        · refine (ih (mem_filterMap.2 ⟨source, later, read⟩)).imp_right fun unchecked => ?_
          obtain ⟨other, otherMem, read⟩ := mem_filterMap.1 unchecked
          exact mem_filterMap.2 ⟨other, mem_cons_of_mem _ otherMem, read⟩

theorem projectIdFromPath_of_parameter {path id : ByteText} {n : Int} (pathOnly : '?' ∉ path)
    (parameter : pathParameter path = some id) (parsed : parseI64 id = some n) :
    projectIdFromPath path = some n := by
  have clean : cleanPath path = path := by
    rw [cleanPath, takeWhile_eq_self_iff]
    intro c mem
    rw [decide_eq_true_eq]
    rintro rfl
    exact pathOnly mem
  have named : id ≠ [] := by
    rintro rfl
    cases parsed
  rw [pathParameter] at parameter
  split at parameter
  · next first api project segment rest parts =>
      split_ifs at parameter with spelled
      obtain ⟨rfl, rfl, rfl⟩ := spelled
      cases parameter
      rw [projectIdFromPath, clean, parts]
      simp [named, parsed]
  · cases parameter

theorem handlerIds_checked :
    ∀ id ∈ handlerIds json acceptsJson request,
      id ∈ candidates json request ∨ id ∈ uncheckedIds json acceptsJson request := by
  intro id mem
  rw [handlerIds, append_assoc, mem_append, mem_append] at mem
  rw [candidates, uncheckedIds, append_assoc, append_assoc, mem_append,
    mem_append, mem_append, mem_append]
  rcases mem with inPath | inQuery | inBody
  · rw [Option.mem_toList] at inPath
    obtain ⟨segment, parameter, read⟩ := Option.bind_eq_some_iff.1 inPath
    cases parsed : parseI64 segment with
    | some n =>
      rw [percentDecode_of_parseI64 parsed, parsed] at read
      rw [Option.mem_toList, projectIdFromPath_of_parameter request.pathOnly parameter parsed]
      exact Or.inl (Or.inl read)
    | none =>
      refine Or.inr (Or.inl ?_)
      rw [Option.mem_toList, parameter, Option.bind_some, parsed]
      exact read
  · have pairs : queryPairs request = (request.query.map (splitOn '&')).getD [] := rfl
    rcases pairId_checked inQuery with checked | unchecked
    · refine Or.inl (Or.inr (Or.inl ?_))
      rw [Option.mem_toList, projectIdFromQuery]
      cases query : request.query with
      | none =>
        rw [pairs, query] at checked
        cases checked
      | some text =>
        rw [pairs, query] at checked
        exact checked
    · exact Or.inr (Or.inr (Or.inl unchecked))
  · cases accepted : acceptsJson request.contentType with
    | false =>
      rw [accepted] at inBody
      exact absurd inBody not_mem_nil
    | true =>
      rw [accepted, if_pos rfl, Option.mem_toList] at inBody
      cases reads : readsBody request with
      | false =>
        refine Or.inr (Or.inr (Or.inr ?_))
        simpa using inBody
      | true =>
        refine Or.inl (Or.inr (Or.inr ?_))
        have filled : request.body ≠ [] := by
          intro bare
          rw [bare, json.projectId_nil] at inBody
          cases inBody
        simpa [filled] using inBody

theorem uncheckedIds_subset :
    ∀ id ∈ uncheckedIds json acceptsJson request, id ∈ handlerIds json acceptsJson request := by
  intro id mem
  rw [uncheckedIds, append_assoc, mem_append, mem_append] at mem
  rw [handlerIds, append_assoc, mem_append, mem_append]
  rcases mem with inPath | inQuery | inBody
  · refine Or.inl ?_
    rw [Option.mem_toList] at inPath ⊢
    obtain ⟨segment, parameter, read⟩ := Option.bind_eq_some_iff.1 inPath
    split_ifs at read
    exact Option.bind_eq_some_iff.2 ⟨segment, parameter, read⟩
  · obtain ⟨pair, pairMem, read⟩ := mem_filterMap.1 inQuery
    exact Or.inr (Or.inl (mem_filterMap.2 ⟨pair, uncheckedPairs_subset pairMem, read⟩))
  · refine Or.inr (Or.inr ?_)
    split_ifs at inBody with open_
    · rw [Bool.and_eq_true] at open_
      rw [if_pos open_.1]
      exact inBody
    · exact absurd inBody not_mem_nil

end Unchecked

section Scope

theorem allowed_of_admitted {hashToken : ByteText → String} {json : JsonReader}
    {gate : AdmissionGate} {request : Request} {context : AdmissionContext}
    (admitted : admissionMiddleware hashToken json gate request = .ok (some context)) :
    ∀ id ∈ candidates json request, context.allowsProject id = true := by
  rw [admissionMiddleware] at admitted
  by_cases open_ : isPublicPath request.path gate.publicPrefixes = true
  · rw [if_pos open_] at admitted
    cases admitted
  · rw [if_neg open_] at admitted
    cases presented : presentedToken request with
    | none =>
      rw [presented] at admitted
      cases admitted
    | some token =>
      rw [presented] at admitted
      dsimp only at admitted
      cases known : authenticateRequest hashToken gate token with
      | none =>
        rw [known] at admitted
        cases admitted
      | some found =>
        rw [known] at admitted
        dsimp only at admitted
        split_ifs at admitted with path rate size allowed
        cases Option.some.inj (Except.ok.inj admitted)
        exact all_eq_true.1 allowed

/-- A handler whose answer depends only on the data of the given projects. -/
def ReadsOnly {Data Answer : Type} (ids : List Int) (handler : (Int → Data) → Answer) : Prop :=
  ∀ data data', (∀ id ∈ ids, data id = data' id) → handler data = handler data'

/-- Every id a handler reads is covered by the token, and no handler can tell apart two states
    that agree on the projects the token covers. -/
def ScopeComplete (context : AdmissionContext) (ids : List Int) : Prop :=
  (∀ id ∈ ids, context.allowsProject id = true) ∧
    ∀ (Data Answer : Type) (handler : (Int → Data) → Answer), ReadsOnly ids handler →
      ∀ data data', (∀ id, context.allowsProject id = true → data id = data' id) →
        handler data = handler data'

/-- A gate with one gateway token, bound to project 1. -/
def exampleGate : AdmissionGate where
  store := [⟨"digest", "fp", [1], none⟩]
  adminStore := []
  publicPrefixes := ["/api/health".toList]
  maxBodyBytes := 1024
  checkRate _ := true

def exampleRequest (query : String) : Request where
  path := "/api/ingest/push".toList
  query := some query.toList
  isGet := false
  contentType := none
  authorization := some "Bearer gateway-token-value".toList
  apiToken := none
  body := []
  pathOnly := by decide +kernel

def noJson : JsonReader where
  projectId _ := none
  projectId_nil := rfl

def exampleContext : AdmissionContext := ⟨"fp", [1], none, false⟩

end Scope

end ContextEngine
