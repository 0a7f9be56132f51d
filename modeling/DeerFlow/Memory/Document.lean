import DeerFlow.Agents.Subagents
import DeerFlow.Memory.Queue
import DeerFlow.PyText
import Mathlib.Algebra.Order.Ring.Rat
import Mathlib.Data.List.Sort

/-!
# Memory documents

What a memory file holds, the edits users make to it and the revision the updater makes from the
answer of a model. `version` and `lastUpdated`, which nothing reads, are left out.
-/

namespace DeerFlow

/-- A `float`; the finite ones are rational numbers. -/
inductive PyFloat where
  | finite (q : ℚ)
  | infinite (negative : Bool)
  | nan
  deriving DecidableEq

inductive Decoded where
  | null
  | bool (b : Bool)
  | int (n : ℤ)
  | float (x : PyFloat)
  | str (s : String)
  | arr (xs : List Decoded)
  | obj (kvs : List (String × Decoded))

/-- `kvs.get(key)`. -/
def lookup (kvs : List (String × Decoded)) (key : String) : Option Decoded :=
  (kvs.find? fun kv => kv.1 = key).map Prod.snd

def Decoded.truthy : Decoded → Bool
  | .null => false
  | .bool b => b
  | .int n => n ≠ 0
  | .float x => x ≠ .finite 0
  | .str s => s ≠ ""
  | .arr xs => !xs.isEmpty
  | .obj kvs => !kvs.isEmpty

/-- Taken from Python as it is: `JSONDecoder.raw_decode`, `float` of a text and of an integer
(`none` where they raise), `str.casefold`, and `str.isalnum` beyond ASCII. -/
structure PyLib where
  rawDecode : List Char → Option Decoded
  floatOfText : String → Option PyFloat
  floatOfInt : ℤ → Option ℚ
  casefold : String → String
  isAlnum : Char → Bool

section UploadMentions

variable (lib : PyLib)

/-- `\w`. -/
def isWord (c : Char) : Bool :=
  if c.toNat < 128 then c.isAlphanum || c = '_' else lib.isAlnum c

/-- `c` is the letter `p` of a pattern, whatever its case. -/
def matchesLetter (p c : Char) : Bool :=
  c = p || c = p.toUpper || (p = 'i' && (c = 'ı' || c = 'İ')) || (p = 's' && c = 'ſ')

def afterLiteral : List Char → List Char → Option (List Char)
  | [], cs => some cs
  | p :: ps, c :: cs => if matchesLetter p c then afterLiteral ps cs else none
  | _ :: _, [] => none

/-- The text after one or more characters of a class, and no more of them. -/
def afterSome (p : Char → Bool) : List Char → Option (List Char)
  | c :: cs => if p c then some (cs.dropWhile p) else none
  | [] => none

def startsWithLiteral (literal : String) (cs : List Char) : Bool :=
  (afterLiteral literal.toList cs).isSome

/-- `\s+(?:file|files?|document|documents?|attachment|attachments?)`. -/
def nounFollows (cs : List Char) : Bool :=
  (afterSome isSpace cs).any fun cs =>
    startsWithLiteral "file" cs || startsWithLiteral "document" cs ||
      startsWithLiteral "attachment" cs

def objectFollows : ℕ → List Char → Bool
  | 0, cs => nounFollows cs
  | n + 1, cs =>
    nounFollows cs ||
      ((afterSome isSpace cs).bind (afterSome (isWord lib))).any (objectFollows n)

/-- `upload(?:ed|ing)?`, with its object. -/
def uploadVerb (cs : List Char) : Bool :=
  (afterLiteral "upload".toList cs).any fun cs =>
    objectFollows lib 3 cs || (afterLiteral "ed".toList cs).any (objectFollows lib 3) ||
      (afterLiteral "ing".toList cs).any (objectFollows lib 3)

/-- `file\s+upload`. -/
def fileUpload (cs : List Char) : Bool :=
  ((afterLiteral "file".toList cs).bind (afterSome isSpace)).any (startsWithLiteral "upload")

/-- One of the alternatives of `_UPLOAD_SENTENCE_RE` at a word boundary. -/
def mentionAt (before : Option Char) (cs : List Char) : Bool :=
  (before.any (isWord lib) != cs.head?.any (isWord lib)) &&
    (uploadVerb lib cs || fileUpload cs || startsWithLiteral "/mnt/user-data/uploads/" cs ||
      startsWithLiteral "<uploaded_files>" cs)

/-- An alternative somewhere in the text. What the pattern has around it matches any text. -/
def mentionsUploadFrom : Option Char → List Char → Bool
  | _, [] => false
  | before, c :: cs => mentionAt lib before (c :: cs) || mentionsUploadFrom (some c) cs

/-- `_UPLOAD_SENTENCE_RE.search(text)`. -/
def mentionsUpload (text : String) : Bool := mentionsUploadFrom lib none text.toList

def endsSentence (c : Char) : Bool := c = '.' || c = '!' || c = '?'

/-- `_UPLOAD_SENTENCE_RE.sub("", text)`, for so many sentences: a match is a sentence with its end
and the blanks after it. -/
def dropUploadSentences : ℕ → List Char → List Char
  | 0, cs => cs
  | n + 1, cs =>
    let sentence := cs.takeWhile fun c => !endsSentence c
    match cs.dropWhile fun c => !endsSentence c with
    | [] => if mentionsUploadFrom lib none sentence then [] else sentence
    | c :: rest =>
      if mentionsUploadFrom lib none sentence then dropUploadSentences n (rest.dropWhile isSpace)
      else sentence ++ c :: dropUploadSentences n rest

/-- `re.sub(r"  +", " ", text)`. -/
def collapseSpaces : List Char → List Char
  | ' ' :: ' ' :: cs => collapseSpaces (' ' :: cs)
  | c :: cs => c :: collapseSpaces cs
  | [] => []

@[irreducible] def scrubSummary (text : String) : String :=
  String.ofList (collapseSpaces (strip (dropUploadSentences lib (text.length + 1) text.toList)))

end UploadMentions

structure MemoryFact where
  id : String
  content : String
  category : String := "context"
  confidence : ℚ
  createdAt : String
  source : String
  sourceError : Option String := none
  deriving DecidableEq

structure ContextSection where
  summary : String := ""
  updatedAt : String := ""
  deriving DecidableEq

/-- The sections of `user` and `history`. -/
inductive MemorySection where
  | workContext
  | personalContext
  | topOfMind
  | recentMonths
  | earlierContext
  | longTermBackground

/-- A memory document; the default is what `create_empty_memory` gives. -/
structure MemoryData where
  workContext : ContextSection := {}
  personalContext : ContextSection := {}
  topOfMind : ContextSection := {}
  recentMonths : ContextSection := {}
  earlierContext : ContextSection := {}
  longTermBackground : ContextSection := {}
  facts : List MemoryFact := []
  deriving DecidableEq

namespace MemoryData

def getSection (d : MemoryData) : MemorySection → ContextSection
  | .workContext => d.workContext
  | .personalContext => d.personalContext
  | .topOfMind => d.topOfMind
  | .recentMonths => d.recentMonths
  | .earlierContext => d.earlierContext
  | .longTermBackground => d.longTermBackground

def mapSections (f : MemorySection → ContextSection → ContextSection) (d : MemoryData) :
    MemoryData where
  workContext := f .workContext d.workContext
  personalContext := f .personalContext d.personalContext
  topOfMind := f .topOfMind d.topOfMind
  recentMonths := f .recentMonths d.recentMonths
  earlierContext := f .earlierContext d.earlierContext
  longTermBackground := f .longTermBackground d.longTermBackground
  facts := d.facts

end MemoryData

inductive MemoryError where
  | valueError (field : String)
  | keyError (factId : String)
  | osError (message : String)
  | jsonDecodeError (message : String)
  | other (typeName : String)
  deriving DecidableEq

def validateConfidence : PyFloat → Except MemoryError ℚ
  | .finite q => if q < 0 || 1 < q then .error (.valueError "confidence") else .ok q
  | _ => .error (.valueError "confidence")

def normalizeContent (content : String) : Except MemoryError String :=
  if stripText content = "" then .error (.valueError "content") else .ok (stripText content)

def normalizeCategory (category : String) : String :=
  if stripText category = "" then "context" else stripText category

/-- The fact `create_memory_fact` makes. `hex` stands for `uuid.uuid4().hex[:8]`. -/
def manualFact (content category : String) (confidence : PyFloat) (now hex : String) :
    Except MemoryError MemoryFact := do
  let content ← normalizeContent content
  let confidence ← validateConfidence confidence
  pure
    { id := "fact_" ++ hex
      content
      category := normalizeCategory category
      confidence
      createdAt := now
      source := "manual" }

/-- `create_memory_fact`, on the memory it loaded. -/
def createMemoryFact (f : MemoryFact) (d : MemoryData) : MemoryData :=
  { d with facts := d.facts ++ [f] }

def deleteMemoryFact (factId : String) (d : MemoryData) : Except MemoryError MemoryData :=
  let updatedFacts := d.facts.filter (·.id ≠ factId)
  if updatedFacts.length = d.facts.length then .error (.keyError factId)
  else .ok { d with facts := updatedFacts }

/-- What `update_memory_fact` is given for a fact. -/
structure FactEdit where
  content : Option String := none
  category : Option String := none
  confidence : Option PyFloat := none
  deriving DecidableEq

def FactEdit.apply (e : FactEdit) (f : MemoryFact) : Except MemoryError MemoryFact := do
  let content ← e.content.elim (pure f.content) normalizeContent
  let confidence ← e.confidence.elim (pure f.confidence) validateConfidence
  pure { f with
    content, confidence, category := e.category.elim f.category normalizeCategory }

def FactEdit.applyTo (factId : String) (e : FactEdit) (f : MemoryFact) :
    Except MemoryError MemoryFact :=
  if f.id = factId then e.apply f else .ok f

/-- The loop of `update_memory_fact`. -/
def editFacts (factId : String) (e : FactEdit) :
    List MemoryFact → Except MemoryError (List MemoryFact)
  | [] => pure []
  | f :: fs => do
    let f ← e.applyTo factId f
    let fs ← editFacts factId e fs
    pure (f :: fs)

def updateMemoryFact (factId : String) (e : FactEdit) (d : MemoryData) :
    Except MemoryError MemoryData := do
  let facts ← editFacts factId e d.facts
  if d.facts.all (·.id ≠ factId) then throw (.keyError factId)
  pure { d with facts }

section Response

variable (lib : PyLib)

def extractText : SubagentContent → String
  | .str s => s
  | .blocks bs => "\n".intercalate (textParts bs [] [])
  | .other repr => repr

/-- A fact of the answer as `_normalize_memory_update_fact` leaves it. -/
structure NewFact where
  content : String
  category : String
  confidence : ℚ
  sourceError : Option String

def PyFloat.finite? : PyFloat → Option ℚ
  | .finite q => some q
  | _ => none

def normalizeConfidence : Decoded → Except MemoryError (Option ℚ)
  | .str s =>
    .ok (if stripText s = "" then none else (lib.floatOfText (stripText s)).bind PyFloat.finite?)
  | .int n => (lib.floatOfInt n).elim (.error (.other "OverflowError")) fun q => .ok (some q)
  | .float x => .ok x.finite?
  | _ => .ok none

def nonBlank : Option Decoded → Option String
  | some (.str s) => if stripText s = "" then none else some (stripText s)
  | _ => none

def normalizeMemoryUpdateFact : Decoded → Except MemoryError (Option NewFact)
  | .obj fact =>
    match nonBlank (lookup fact "content") with
    | none => .ok none
    | some content => do
      let confidence ←
        normalizeConfidence lib ((lookup fact "confidence").getD (.float (.finite (1 / 2))))
      pure (confidence.map fun confidence =>
        { content
          category := (nonBlank (lookup fact "category")).getD "context"
          confidence
          sourceError := nonBlank (lookup fact "sourceError") })
  | _ => .ok none

def normalizeNewFacts : List Decoded → Except MemoryError (List NewFact × Bool)
  | [] => pure ([], false)
  | v :: vs => do
    let f ← normalizeMemoryUpdateFact lib v
    let (fs, dropped) ← normalizeNewFacts vs
    pure (f.toList ++ fs, f.isNone || dropped)

structure UpdateData where
  user : List (String × Decoded) := []
  history : List (String × Decoded) := []
  newFacts : List NewFact := []
  factsToRemove : List String := []

def asText : Decoded → Option String
  | .str s => some s
  | _ => none

def asDict : Option Decoded → List (String × Decoded)
  | some (.obj kvs) => kvs
  | _ => []

def normalizeMemoryUpdateData (kvs : List (String × Decoded)) : Except MemoryError UpdateData := do
  let factsToRemove :=
    match lookup kvs "factsToRemove" with
    | some (.arr xs) => xs.filterMap asText
    | _ => []
  let (newFacts, dropped) ←
    match lookup kvs "newFacts" with
    | some (.arr xs) => normalizeNewFacts lib xs
    | _ => pure ([], true)
  if factsToRemove ≠ [] ∧ dropped then
    throw (.jsonDecodeError "Unsafe partial memory update: factsToRemove with malformed newFacts")
  pure
    { user := asDict (lookup kvs "user")
      history := asDict (lookup kvs "history")
      newFacts, factsToRemove }

def requiredMemoryUpdateTopLevelKeys : List String := ["user", "history", "newFacts", "factsToRemove"]

def parseMemoryUpdateText : List Char → Except MemoryError UpdateData
  | [] => .error (.jsonDecodeError "No valid memory update JSON object found")
  | c :: cs =>
    match if c = '{' then lib.rawDecode (c :: cs) else none with
    | some (.obj kvs) =>
      if requiredMemoryUpdateTopLevelKeys.all fun key => (lookup kvs key).isSome then
        normalizeMemoryUpdateData lib kvs
      else parseMemoryUpdateText cs
    | _ => parseMemoryUpdateText cs

def parseMemoryUpdateResponse (content : SubagentContent) : Except MemoryError UpdateData :=
  parseMemoryUpdateText lib (strip (extractText content).toList)

end Response

structure UpdaterConfig extends MemoryConfig where
  maxFacts : ℕ := 100
  /-- `0.7`, as a float. -/
  factConfidenceThreshold : ℚ := 3152519739159347 / 4503599627370496

section Revision

variable (lib : PyLib) (config : UpdaterConfig)

def UpdateData.forSection (u : UpdateData) : MemorySection → Option Decoded
  | .workContext => lookup u.user "workContext"
  | .personalContext => lookup u.user "personalContext"
  | .topOfMind => lookup u.user "topOfMind"
  | .recentMonths => lookup u.history "recentMonths"
  | .earlierContext => lookup u.history "earlierContext"
  | .longTermBackground => lookup u.history "longTermBackground"

/-- What an answer would put into a section as its summary; what is no dict has no `get`. -/
def UpdateData.sectionUpdate (u : UpdateData) (sec : MemorySection) :
    Except MemoryError (Option Decoded) :=
  match (u.forSection sec).getD (.obj []) with
  | .obj kvs =>
    .ok (if ((lookup kvs "shouldUpdate").getD .null).truthy &&
        ((lookup kvs "summary").getD .null).truthy then lookup kvs "summary" else none)
  | _ => .error (.other "AttributeError")

def UpdateData.newSummary (u : UpdateData) (sec : MemorySection) : Option String :=
  match u.sectionUpdate sec with
  | .ok (some (.str s)) => some s
  | _ => none

def allSections : List MemorySection :=
  [.workContext, .personalContext, .topOfMind, .recentMonths, .earlierContext, .longTermBackground]

/-- The sections are read one after the other. -/
def UpdateData.readSections (u : UpdateData) : Except MemoryError Unit :=
  allSections.forM fun sec => u.sectionUpdate sec >>= fun _ => pure ()

/-- A summary that is no text is refused where it is scrubbed. -/
def UpdateData.checkSummaries (u : UpdateData) : Except MemoryError Unit :=
  if allSections.any fun sec =>
      u.newSummary sec = none && (u.sectionUpdate sec matches .ok (some _)) then
    throw (.other "TypeError")
  else pure ()

def UpdateData.applySection (u : UpdateData) (now : String) (sec : MemorySection)
    (x : ContextSection) : ContextSection :=
  (u.newSummary sec).elim x fun summary => ⟨summary, now⟩

def factContentKey (content : String) : Option String :=
  if stripText content = "" then none else some (lib.casefold (stripText content))

/-- What an update has beside the answer: the clock, the thread and the ids it draws. -/
structure UpdateContext where
  now : String
  threadId : Option String
  hex : ℕ → String

/-- The entry for a fact of the answer, with the `n`-th id that is drawn. -/
def UpdateContext.entry (ctx : UpdateContext) (n : ℕ) (f : NewFact) : MemoryFact where
  id := "fact_" ++ ctx.hex n
  content := stripText f.content
  category := f.category
  confidence := f.confidence
  createdAt := ctx.now
  source := if ctx.threadId.getD "" = "" then "unknown" else ctx.threadId.getD ""
  sourceError := nonBlank (f.sourceError.map .str)

/-- The loop over `newFacts`: `keys` are the contents that are there, `n` ids have been drawn. -/
def addNewFacts (ctx : UpdateContext) :
    List NewFact → ℕ → List String → List MemoryFact → List MemoryFact
  | [], _, _, facts => facts
  | f :: fs, n, keys, facts =>
    if f.confidence < config.factConfidenceThreshold then addNewFacts ctx fs n keys facts
    else
      match factContentKey lib (stripText f.content) with
      | some key =>
        if key ∈ keys then addNewFacts ctx fs n keys facts
        else addNewFacts ctx fs (n + 1) (keys ++ [key]) (facts ++ [ctx.entry n f])
      | none => addNewFacts ctx fs (n + 1) keys (facts ++ [ctx.entry n f])

def mergedFacts (ctx : UpdateContext) (u : UpdateData) (facts : List MemoryFact) : List MemoryFact :=
  let kept := facts.filter (·.id ∉ u.factsToRemove)
  addNewFacts lib config ctx u.newFacts 0 (kept.filterMap fun f => factContentKey lib f.content) kept

def limitFacts (facts : List MemoryFact) : List MemoryFact :=
  if config.maxFacts < facts.length then
    (facts.insertionSort fun a b => b.confidence ≤ a.confidence).take config.maxFacts
  else facts

def withUpdates (ctx : UpdateContext) (u : UpdateData) (d : MemoryData) : MemoryData :=
  { d.mapSections (u.applySection ctx.now) with
    facts := limitFacts config (mergedFacts lib config ctx u d.facts) }

def applyUpdates (ctx : UpdateContext) (u : UpdateData) (d : MemoryData) :
    Except MemoryError MemoryData := do
  u.readSections
  pure (withUpdates lib config ctx u d)

def stripUploadMentionsFromMemory (d : MemoryData) : MemoryData :=
  { d.mapSections fun _ x => { x with summary := scrubSummary lib x.summary } with
    facts := d.facts.filter fun f => !mentionsUpload lib f.content }

/-- What `_finalize_update` saves for an answer. -/
def reviseMemory (ctx : UpdateContext) (u : UpdateData) (d : MemoryData) :
    Except MemoryError MemoryData := do
  let d' ← applyUpdates lib config ctx u d
  u.checkSummaries
  pure (stripUploadMentionsFromMemory lib d')

end Revision

end DeerFlow
