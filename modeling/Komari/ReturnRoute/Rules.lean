import Komari.Codec.Result
import Komari.ReturnRoute.Address
import Komari.Table.Basic
import Komari.TrafficReset.Schedule
import Komari.Trie.Bits
import Mathlib.Data.Rat.Defs

/-!
# Rules for return routes

Rule documents name the networks of carriers; those of BGP documents are added to the rules of the operator.
-/

namespace Komari

namespace ReturnRoute

open TrafficReset (trimSpace)

/-! ### Documents -/

/-- `ReturnRouteCustomLine`. -/
structure CustomLine where
  name : String
  groups : List String
  confidence : ℚ
deriving DecidableEq

/-- `ReturnRouteRuleDocument`, as it is decoded; a map that is not there has no keys. -/
structure RuleDocument where
  schemaVersion : ℤ
  ruleVersion : String
  asnGroups : Table String (List ℤ)
  prefixGroups : Table String (List String)
  confidence : Table String ℚ
  customLines : Table String CustomLine

/-- `ReturnRouteBGPRuleDocument`. -/
structure BGPRuleDocument where
  schemaVersion : ℤ
  /-- `GeneratedAt`, if it is not zero. -/
  generatedAt : Option ℤ
  source : String
  /-- `PrefixGroups`, if it is there. -/
  prefixGroups : Option (Table String (List String))

/-- Groups that must have numbers. -/
def coreReturnRouteASNGroups : List String :=
  ["cmin2", "cmi", "cn2_global", "cn2_backbone", "telecom_163", "unicom_10099", "unicom_9929",
    "unicom_4837", "cmnet"]

/-- Groups that may be missing. -/
def optionalReturnRouteASNGroups : List String := ["softbank", "iij", "lumen"]

/-- All groups of numbers. -/
def returnRouteASNGroups : List String := coreReturnRouteASNGroups ++ optionalReturnRouteASNGroups

/-- Groups that must have a confidence. -/
def coreReturnRouteConfidence : List String :=
  ["cmin2", "cmi", "cn2_gia", "cn2_gt_strong", "cn2_gt", "cn2_gt_prefix_only", "unicom_10099",
    "unicom_9929", "unicom_4837", "telecom_163", "telecom_163_prefix", "cmnet"]

/-- The confidence of these. -/
def optionalReturnRouteConfidence : List String := ["softbank", "iij", "lumen"]

/-- All groups with a confidence. -/
def returnRouteConfidence : List String := coreReturnRouteConfidence ++ optionalReturnRouteConfidence

def returnRouteRuleSchemaVersion : ℤ := 1

/-- `returnRoutePrefixRule`; the group has a name. -/
structure PrefixRule where
  group : String
  network : IPNet
deriving DecidableEq

/-- `returnRoutePrefixMatcher`. -/
structure PrefixMatcher where
  v4 : BitTrie String
  v6 : BitTrie String

/-- `compiledReturnRouteRules`. -/
structure CompiledRules where
  document : RuleDocument
  asnGroups : Table String (List ℤ)
  prefixGroups : Table String (List IPNet)
  prefixRules : List PrefixRule
  prefixMatcher : PrefixMatcher
  asnRuleCount : ℕ
  cidrRuleCount : ℕ

/-- `compiledReturnRouteBGPRules`. -/
structure CompiledBGPRules where
  /-- `GeneratedAt` of the document. -/
  generatedAt : ℤ
  /-- `Source` of the document. -/
  source : String
  /-- `PrefixGroups` of the document: the texts of the networks. -/
  texts : Table String (List String)
  prefixGroups : Table String (List IPNet)
  prefixRules : List PrefixRule
  cidrRuleCount : ℕ

/-! ### Checks -/

/-- `validateReturnRouteRuleKeys`, of a map that is there. -/
def validateReturnRouteRuleKeys {α : Type} (name : String) (values : Table String α)
    (required optional : List String) : Except String Unit :=
  match required.find? fun key => (values.find? key).isNone with
  | some key => .error (name ++ " 缺少必需分组 " ++ key.quote)
  | none =>
    match values.rows.find? fun row => !(required ++ optional).contains row.1 with
    | some row => .error (name ++ " 包含未知分组 " ++ row.1.quote)
    | none => .ok ()

/-- The value that a key gets if it has none. -/
def fillKey {α : Type} (default : α) (t : Table String α) (key : String) : Table String α :=
  if (t.find? key).isSome then t else t.upsert key default

/-- The networks that a group gets by default. -/
def defaultASNs (group : String) : List ℤ :=
  if group = "softbank" then [17676] else if group = "iij" then [2497] else [3356]

/-- Groups that may be missing get defaults. -/
def fillOptionalReturnRouteRules (document : RuleDocument) : RuleDocument :=
  { document with
    asnGroups := optionalReturnRouteASNGroups.foldl
      (fun t group => fillKey (defaultASNs group) t group) document.asnGroups
    prefixGroups := optionalReturnRouteASNGroups.foldl (fillKey []) document.prefixGroups
    confidence := optionalReturnRouteASNGroups.foldl (fillKey (96 / 100)) document.confidence }

/-- The group is a known one. -/
def containsReturnRouteGroup (value : String) : Bool := returnRouteASNGroups.contains (trimSpace value)

/-- The checks of one custom line, which gets its name. -/
def checkCustomLine (name : String) (line : CustomLine) : Except String CustomLine :=
  let key := trimSpace name
  let displayName := if trimSpace line.name = "" then key else trimSpace line.name
  if key = "" ∨ displayName = "" ∨ line.groups.length < 2 then
    .error ("custom_lines." ++ key ++ " 必须包含名称和至少两个有序分组")
  else if line.confidence ≤ 0 ∨ 1 < line.confidence then
    .error ("custom_lines." ++ key ++ ".confidence 必须大于 0 且不超过 1")
  else
    match line.groups.find? fun group => !containsReturnRouteGroup group with
    | some group => .error ("custom_lines." ++ key ++ " 引用了未知分组 " ++ group.quote)
    | none => .ok { line with name := displayName }

/-- The custom lines are checked in any order. -/
def checkCustomLines (lines : Table String CustomLine) : Except String (Table String CustomLine) :=
  lines.rows.foldlM (fun t row => do
    let line ← checkCustomLine row.1 row.2
    return t.upsert row.1 line) lines

/-- The networks of the groups, in the order of the groups. -/
def grouped {α : Type} (t : Table String (List α)) : List (String × α) :=
  returnRouteASNGroups.flatMap fun group => ((t.find? group).getD []).map fun value => (group, value)

/-- A value is appended to those of its group. -/
def appendTo {α : Type} (t : Table String (List α)) (group : String) (value : α) : Table String (List α) :=
  t.upsert group ((t.find? group).getD [] ++ [value])

/-- One ASN, after those that were seen. -/
def checkASN (seenASNs : Table ℤ String) (entry : String × ℤ) : Except String (Table ℤ String) :=
  if entry.2 ≤ 0 then .error ("asn_groups." ++ entry.1 ++ " 包含无效 ASN " ++ toString entry.2)
  else
    match seenASNs.find? entry.2 with
    | some previous => .error ("ASN " ++ toString entry.2 ++ " 同时出现在 " ++ previous ++ " 和 " ++ entry.1)
    | none => .ok (seenASNs.upsert entry.2 entry.1)

/-- The networks that were compiled up to now. -/
structure Prefixes where
  /-- `seenPrefixes`. -/
  seen : Table String String
  texts : Table String (List String)
  prefixGroups : Table String (List IPNet)
  prefixRules : List PrefixRule

/-- `confidence[key]` is checked. -/
def checkConfidence (confidence : Table String ℚ) (key : String) : Except String Unit :=
  let value := (confidence.find? key).getD 0
  if value ≤ 0 ∨ 1 < value then .error ("confidence." ++ key ++ " 必须大于 0 且不超过 1") else .ok ()

section

variable (netip : NetipPackage)

/-- A text as a network. -/
def parseReturnRouteCIDR (value : String) : Option (IPNet × String) :=
  (parseCIDR netip (trimSpace value)).map fun network => (network, network.string netip)

/-- One network, after those that were seen. -/
def addPrefix (label : String) (compiled : Prefixes) (entry : String × String) : Except String Prefixes :=
  match parseReturnRouteCIDR netip entry.2 with
  | none => .error ("prefix_groups." ++ entry.1 ++ " 包含无效网段 " ++ entry.2.quote)
  | some (network, normalized) =>
    match compiled.seen.find? normalized with
    | some previous =>
      .error (label ++ "网段 " ++ normalized ++ " 同时出现在 " ++ previous ++ " 和 " ++ entry.1)
    | none =>
      .ok {
        seen := compiled.seen.upsert normalized entry.1
        texts := appendTo compiled.texts entry.1 normalized
        prefixGroups := appendTo compiled.prefixGroups entry.1 network
        prefixRules := compiled.prefixRules ++ [⟨entry.1, network⟩] }

/-- The prefixes of all groups, unless one is bad. -/
def compilePrefixes (label : String) (prefixGroups : Table String (List String)) :
    Except String Prefixes :=
  (grouped prefixGroups).foldlM (addPrefix netip label) ⟨∅, ∅, ∅, []⟩

/-! ### Matching -/

/-- A network is stored under its bits, in the trie of its family. -/
def PrefixMatcher.insert (matcher : PrefixMatcher) (rule : PrefixRule) : PrefixMatcher :=
  match parsePrefix netip (rule.network.string netip) with
  | none => matcher
  | some found =>
    let address := found.masked.addr.unmap
    if address.is4 then
      { matcher with v4 := matcher.v4.insert rule.group (firstBits address.bytes found.bits) }
    else { matcher with v6 := matcher.v6.insert rule.group (firstBits address.bytes found.bits) }

/-- The tries of some rules. -/
def newReturnRoutePrefixMatcher (rules : List PrefixRule) : PrefixMatcher :=
  rules.foldl (PrefixMatcher.insert netip) ⟨.nil, .nil⟩

/-- `matchPrefixGroup`: the group that was met last on the way along the bits. -/
def CompiledRules.matchPrefixGroup (rules : CompiledRules) (value : String) : String :=
  match netip.parseAddr (trimSpace value) with
  | none => ""
  | some address =>
    let address := address.unmap
    let node := if address.is4 then rules.prefixMatcher.v4 else rules.prefixMatcher.v6
    (node.longest none (bits address.bytes)).getD ""

/-! ### Compilation -/

/-- `compileReturnRouteRules`, of a document that is decoded. -/
def compileReturnRouteRules (document : RuleDocument) : Except String CompiledRules :=
  if document.schemaVersion ≠ returnRouteRuleSchemaVersion then
    .error ("不支持的 schema_version " ++ toString document.schemaVersion ++ "，当前仅支持 " ++
      toString returnRouteRuleSchemaVersion)
  else if trimSpace document.ruleVersion = "" then .error "rule_version 不能为空"
  else do
    let document := fillOptionalReturnRouteRules
      { document with ruleVersion := trimSpace document.ruleVersion }
    validateReturnRouteRuleKeys "asn_groups" document.asnGroups coreReturnRouteASNGroups
      optionalReturnRouteASNGroups
    validateReturnRouteRuleKeys "prefix_groups" document.prefixGroups coreReturnRouteASNGroups
      optionalReturnRouteASNGroups
    validateReturnRouteRuleKeys "confidence" document.confidence coreReturnRouteConfidence
      optionalReturnRouteConfidence
    let customLines ← checkCustomLines document.customLines
    let _ ← (grouped document.asnGroups).foldlM checkASN ∅
    let compiled ← compilePrefixes netip "" document.prefixGroups
    returnRouteConfidence.forM (checkConfidence document.confidence)
    return {
      document := { document with customLines := customLines }
      asnGroups := document.asnGroups
      prefixGroups := compiled.prefixGroups
      prefixRules := compiled.prefixRules
      prefixMatcher := newReturnRoutePrefixMatcher netip compiled.prefixRules
      asnRuleCount := (grouped document.asnGroups).length
      cidrRuleCount := compiled.prefixRules.length }

/-- `compileReturnRouteBGPRules`, of a document that is decoded. -/
def compileReturnRouteBGPRules (document : BGPRuleDocument) : Except String CompiledBGPRules :=
  if document.schemaVersion ≠ returnRouteRuleSchemaVersion then
    .error ("不支持的 BGP schema_version " ++ toString document.schemaVersion)
  else
    match document.generatedAt with
    | none => .error "BGP 规则 generated_at 不能为空"
    | some generatedAt =>
      if trimSpace document.source = "" then .error "BGP 规则 source 不能为空"
      else
        match document.prefixGroups with
        | none => .error "prefix_groups 不能为空"
        | some prefixGroups => do
          validateReturnRouteRuleKeys "prefix_groups" prefixGroups coreReturnRouteASNGroups
            optionalReturnRouteASNGroups
          let compiled ← compilePrefixes netip "BGP " prefixGroups
          return {
            generatedAt := generatedAt
            source := trimSpace document.source
            texts := compiled.texts
            prefixGroups := compiled.prefixGroups
            prefixRules := compiled.prefixRules
            cidrRuleCount := compiled.prefixRules.length }

/-! ### Merging -/

/-- One network of a BGP document, unless its text was seen. -/
def mergePrefix (merged : List String × CompiledRules) (entry : String × IPNet × String) :
    List String × CompiledRules :=
  let (seen, rules) := merged
  let (group, network, text) := entry
  if seen.contains (network.string netip) then merged
  else
    (network.string netip :: seen,
      { rules with
        prefixGroups := appendTo rules.prefixGroups group network
        prefixRules := rules.prefixRules ++ [⟨group, network⟩]
        document := { rules.document with
          prefixGroups := appendTo rules.document.prefixGroups group text }
        cidrRuleCount := rules.cidrRuleCount + 1 })

/-- The networks of a BGP document with their texts, in the order of the groups. -/
def CompiledBGPRules.entries (bgp : CompiledBGPRules) : List (String × IPNet × String) :=
  returnRouteASNGroups.flatMap fun group =>
    (((bgp.prefixGroups.find? group).getD []).zip ((bgp.texts.find? group).getD [])).map
      fun entry => (group, entry)

/-- Both together; networks of the operator come first. -/
def mergeReturnRouteRules (base : CompiledRules) (bgp : Option CompiledBGPRules) : CompiledRules :=
  match bgp with
  | none => base
  | some bgp =>
    let seen := base.prefixRules.map fun rule => rule.network.string netip
    let merged := (bgp.entries.foldl (mergePrefix netip) (seen, base)).2
    { merged with prefixMatcher := newReturnRoutePrefixMatcher netip merged.prefixRules }

/-- `returnRouteRuleState`. -/
structure RuleState where
  active : CompiledRules
  base : CompiledRules
  bgp : Option CompiledBGPRules

/-- Rules become the active ones. -/
inductive Activation
  /-- `activateReturnRouteBaseRules`. -/
  | base (compiled : CompiledRules)
  /-- `activateReturnRouteBGPRules`. -/
  | bgp (compiled : CompiledBGPRules)

/-- The rules are activated, under the lock. -/
def RuleState.activate (s : RuleState) : Activation → RuleState
  | .base compiled => { s with base := compiled, active := mergeReturnRouteRules netip compiled s.bgp }
  | .bgp compiled => { s with bgp := some compiled, active := mergeReturnRouteRules netip s.base (some compiled) }

/-- `ensureReturnRouteRules`: the state with the rules that are built in. -/
def RuleState.initial (builtin : CompiledRules) : RuleState := ⟨builtin, builtin, none⟩

end

end ReturnRoute

end Komari
